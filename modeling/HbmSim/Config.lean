import HbmSim.Controller.Drive

/-!
Device, controller and simulation configuration (`hbm_system.h`, first part of
`hbm_system.cpp`), and the per-channel controller configuration `HbmSystem`'s
constructor derives from it.
-/

namespace HbmSim

/-- A device is custom, with its own organization and timing, or backed by a
standard, whose organization and timing are then the only copies. -/
structure DeviceSpec where
  customOrganization : HbmOrganization := {}
  customTiming : HbmTimingSpec := {}
  standard : Option HbmStandard := none
deriving DecidableEq, Repr

namespace DeviceSpec

def custom : DeviceSpec :=
  { customOrganization :=
      { topology := {}, columnsPerRow := 128, rowsPerBank := 16384, physicalBurstBytes := 64
        addressInterleaveBytes := 64, addressMapping := .linear
        pseudoChannelRate := ⟨32, 1000⟩ } }

def fromStandard (s : HbmStandard) : DeviceSpec := { standard := some s }

def organization (d : DeviceSpec) : HbmOrganization :=
  match d.standard with
  | some s => s.organization
  | none => d.customOrganization

def timing (d : DeviceSpec) : HbmTimingSpec :=
  match d.standard with
  | some s => s.timing
  | none => d.customTiming

/-- Leave a standard before overriding it. -/
def asCustom (d : DeviceSpec) : DeviceSpec :=
  { customOrganization := d.organization, customTiming := d.timing }

/-- `edit_organization` refuses a standard-backed device. -/
def editOrganization (d : DeviceSpec) (f : HbmOrganization → HbmOrganization) :
    Except HbmError DeviceSpec :=
  if d.standard.isSome then
    .error (.logicError "standard organization is immutable; use as_custom")
  else .ok { d with customOrganization := f d.customOrganization }

/-- `edit_timing` refuses a standard-backed device. -/
def editTiming (d : DeviceSpec) (f : HbmTimingSpec → HbmTimingSpec) :
    Except HbmError DeviceSpec :=
  if d.standard.isSome then
    .error (.logicError "standard timing is immutable; use as_custom")
  else .ok { d with customTiming := f d.customTiming }

/-- The devices a client can build. -/
inductive Built : DeviceSpec → Prop
  | custom : Built custom
  | fromStandard (s : HbmStandard) : Built (fromStandard s)
  | asCustom {d : DeviceSpec} (built : Built d) : Built d.asCustom
  | editOrganization {d e : DeviceSpec} {f : HbmOrganization → HbmOrganization} (built : Built d)
      (edited : d.editOrganization f = .ok e) : Built e
  | editTiming {d e : DeviceSpec} {f : HbmTimingSpec → HbmTimingSpec} (built : Built d)
      (edited : d.editTiming f = .ok e) : Built e

/-- Every custom device can be built, and a device backed by a standard is that standard's
own: no edit reaches it. -/
theorem built_iff (d : DeviceSpec) :
    Built d ↔ d.standard = none ∨ ∃ s, d = .fromStandard s := by
  constructor
  · intro built
    induction built with
    | custom => exact .inl rfl
    | fromStandard s => exact .inr ⟨s, rfl⟩
    | asCustom built => exact .inl rfl
    | @editOrganization d e f built edited =>
        unfold DeviceSpec.editOrganization at edited
        cases backed : d.standard with
        | some s => simp [backed] at edited
        | none =>
            simp only [backed, Option.isSome_none, Bool.false_eq_true, if_false] at edited
            cases edited
            exact .inl rfl
    | @editTiming d e f built edited =>
        unfold DeviceSpec.editTiming at edited
        cases backed : d.standard with
        | some s => simp [backed] at edited
        | none =>
            simp only [backed, Option.isSome_none, Bool.false_eq_true, if_false] at edited
            cases edited
            exact .inl rfl
  · rintro (backed | ⟨s, rfl⟩)
    · obtain ⟨organization, timing, standard⟩ := d
      cases backed
      have organized : Built { customOrganization := organization } :=
        .editOrganization (f := fun _ => organization) .custom rfl
      exact .editTiming (f := fun _ => timing) organized rfl
    · exact .fromStandard s

end DeviceSpec

inductive RequestMergePolicy where
  | none | sameAddressRead
deriving DecidableEq, Repr

structure ControllerConfig where
  maxActiveTransactions : Nat := 1024
  rowPolicy : RowPolicy := .open
  scheduler : SchedulerKind := .frFcfs
  refreshPolicy : RefreshPolicy := .allBank
  writeDrainHighWatermark : Nat := 16
  writeDrainLowWatermark : Nat := 4
  readQueueCapacity : Nat := 0
  writeQueueCapacity : Nat := 0
  requestMergePolicy : RequestMergePolicy := .none
  starvationThreshold : Nat := 0
  refreshInterval : Nat := 0
  enableRfm : Bool := false
  rfmActivationThreshold : Nat := 0
deriving DecidableEq, Repr

structure SimulationConfig where
  simulationAccessGranularityBytes : Nat := 0
  retainCompletions : Bool := false
  detailedStats : Bool := true
deriving DecidableEq, Repr

structure HbmConfig where
  device : DeviceSpec := .custom
  controller : ControllerConfig := {}
  simulation : SimulationConfig := {}
deriving DecidableEq, Repr

namespace HbmConfig

/-- `if (bad) throw std::invalid_argument(what)`. -/
def rejectIf (bad : Prop) [Decidable bad] (what : String) : Except HbmError Unit :=
  if bad then .error (.invalidArgument what) else .ok ()

def validate (cfg : HbmConfig) : Except HbmError Unit := do
  let organization := cfg.device.organization
  let controller := cfg.controller
  let granularity := cfg.simulation.simulationAccessGranularityBytes
  rejectIf (controller.maxActiveTransactions = 0) "max_active_transactions must be non-zero"
  organization.topology.validate
  organization.pseudoChannelRate.validate
  rejectIf (organization.addressInterleaveBytes = 0 ∨ organization.columnsPerRow = 0 ∨
    organization.rowsPerBank = 0 ∨ organization.physicalBurstBytes = 0)
    "HBM geometry and burst sizes must be non-zero"
  rejectIf (controller.writeDrainLowWatermark > controller.writeDrainHighWatermark)
    "write drain low watermark exceeds high watermark"
  rejectIf (granularity ≠ 0 ∧ granularity < organization.physicalBurstBytes)
    "simulation access granularity is below physical burst size"
  rejectIf (granularity ≠ 0 ∧ granularity % organization.physicalBurstBytes ≠ 0)
    "simulation access granularity must be a burst multiple"
  rejectIf (controller.refreshInterval ≠ 0 ∧
    controller.refreshInterval < refreshDuration controller.refreshPolicy cfg.device.timing)
    "refresh interval must be at least its duration"
  rejectIf (controller.enableRfm = true ∧
    (cfg.device.standard.any fun s => s.supports .rfmPerBank) = false)
    "selected standard does not support RFM"
  rejectIf (controller.enableRfm = true ∧ controller.rfmActivationThreshold = 0)
    "RFM requires a non-zero activation threshold"

def hbm4_8000 : HbmConfig := { device := .fromStandard .hbm4 }

def hbm2_2000 : HbmConfig :=
  { device := .fromStandard .hbm2, controller := { requestMergePolicy := .sameAddressRead } }

def hbm3_6400 : HbmConfig :=
  { device := .fromStandard .hbm3, controller := { requestMergePolicy := .sameAddressRead } }

/-- The configuration is accepted by `validate`. -/
def Valid (cfg : HbmConfig) : Prop := cfg.validate = .ok ()

instance (cfg : HbmConfig) : Decidable cfg.Valid :=
  match h : cfg.validate with
  | .ok () => isTrue h
  | .error e => isFalse fun valid => by simp [Valid, h] at valid

variable (cfg : HbmConfig)

/-- The mapper the constructor builds. -/
def mapper : HbmAddressMapper :=
  let o := cfg.device.organization
  { topology := o.topology
    interleaveBytes := o.addressInterleaveBytes
    columnsPerRow := o.columnsPerRow
    rowsPerBank := o.rowsPerBank
    mapping := o.addressMapping }

def channelCount : Nat := cfg.device.organization.topology.channelCount

def banksPerChannel : Nat := cfg.mapper.bankCount / cfg.channelCount

/-- The controller configuration of one channel. -/
def channelConfig (channel : Nat) : HbmControllerConfig :=
  let o := cfg.device.organization
  { channel := channel
    firstFlatBank := u32 (channel * cfg.banksPerChannel)
    bankCount := cfg.banksPerChannel
    pseudoChannelCount := o.topology.pseudoChannelsPerChannel
    timing := cfg.device.timing
    standard := cfg.device.standard
    dataRate := o.pseudoChannelRate
    scheduler := cfg.controller.scheduler
    rowPolicy := cfg.controller.rowPolicy
    refreshPolicy := cfg.controller.refreshPolicy
    writeDrainHighWatermark := cfg.controller.writeDrainHighWatermark
    writeDrainLowWatermark := cfg.controller.writeDrainLowWatermark
    readQueueCapacity := cfg.controller.readQueueCapacity
    writeQueueCapacity := cfg.controller.writeQueueCapacity
    enableRequestMerging := cfg.controller.requestMergePolicy == .sameAddressRead
    starvationThreshold := cfg.controller.starvationThreshold
    refreshInterval := cfg.controller.refreshInterval
    enableRfm := cfg.controller.enableRfm
    detailedStats := cfg.simulation.detailedStats
    rfmActivationThreshold := cfg.controller.rfmActivationThreshold }

end HbmConfig

end HbmSim
