import HbmSim.Types

/-!
Topology and address mapping (`topology.h`, `address_mapper.h`,
`address_mapper.cpp`).

`HbmAddressMapper` is the interleaving mapper `HbmSystem` constructs. Every
field it returns is a `std::uint32_t`, so the products that flatten the
hierarchy are taken modulo `2 ^ 32`.
-/

namespace HbmSim

structure HbmTopology where
  «stacks» : Nat := 1
  channelsPerStack : Nat := 1
  pseudoChannelsPerChannel : Nat := 2
  bankGroupsPerPseudoChannel : Nat := 1
  banksPerBankGroup : Nat := 1
deriving DecidableEq, Repr

def HbmTopology.validate (t : HbmTopology) : Except HbmError Unit :=
  if t.stacks = 0 ∨ t.channelsPerStack = 0 ∨ t.pseudoChannelsPerChannel = 0 ∨
      t.bankGroupsPerPseudoChannel = 0 ∨ t.banksPerBankGroup = 0 then
    .error (.invalidArgument "every HBM topology dimension must be non-zero")
  else .ok ()

def HbmTopology.channelCount (t : HbmTopology) : Nat :=
  u32 (t.stacks * t.channelsPerStack)

inductive AddressMapping where
  | linear | hbm2PseudoChannelBrc
deriving DecidableEq, Repr

structure HbmAddress where
  stack : Nat := 0
  channel : Nat := 0
  pseudoChannel : Nat := 0
  bankGroup : Nat := 0
  bank : Nat := 0
  row : Nat := 0
  column : Nat := 0
  flatChannel : Nat := 0
  flatSid : Nat := 0
  flatPseudoChannel : Nat := 0
  flatBankGroup : Nat := 0
  flatBank : Nat := 0
deriving DecidableEq, Repr

structure HbmAddressMapper where
  topology : HbmTopology
  interleaveBytes : Nat
  columnsPerRow : Nat
  rowsPerBank : Nat
  mapping : AddressMapping
deriving DecidableEq, Repr

namespace HbmAddressMapper

variable (m : HbmAddressMapper)

/-- The hierarchical fields of an address, before the range check. -/
def decode (address : Nat) : HbmAddress :=
  match m.mapping with
  | .hbm2PseudoChannelBrc =>
      { pseudoChannel := (address >>> 5) &&& 0x1
        bankGroup := (address >>> 6) &&& 0x3
        bank := (address >>> 8) &&& 0x3
        column := (address >>> 11) &&& 0x1f
        row := (address >>> 16) &&& 0x3fff }
  | .linear =>
      let t := m.topology
      let line := address / m.interleaveBytes
      let globalChannel := u32 (line % t.channelCount)
      let line := line / t.channelCount
      let column := u32 (line % m.columnsPerRow)
      let line := line / m.columnsPerRow
      let row := u32 (line % m.rowsPerBank)
      let line := line / m.rowsPerBank
      let bank := u32 (line % t.banksPerBankGroup)
      let line := line / t.banksPerBankGroup
      let bankGroup := u32 (line % t.bankGroupsPerPseudoChannel)
      let line := line / t.bankGroupsPerPseudoChannel
      { stack := globalChannel / t.channelsPerStack
        channel := globalChannel % t.channelsPerStack
        flatChannel := globalChannel
        column := column
        row := row
        bank := bank
        bankGroup := bankGroup
        pseudoChannel := u32 (line % t.pseudoChannelsPerChannel) }

/-- A decoded field lies outside the topology. -/
def outside (a : HbmAddress) : Bool :=
  decide (a.pseudoChannel ≥ m.topology.pseudoChannelsPerChannel) ||
    decide (a.bankGroup ≥ m.topology.bankGroupsPerPseudoChannel) ||
    decide (a.bank ≥ m.topology.banksPerBankGroup) ||
    decide (a.column ≥ m.columnsPerRow) || decide (a.row ≥ m.rowsPerBank)

/-- Fill in the flat indices of a decoded address. -/
def flatten (a : HbmAddress) : HbmAddress :=
  let flatPseudoChannel :=
    u32 (a.flatChannel * m.topology.pseudoChannelsPerChannel + a.pseudoChannel)
  let flatBankGroup :=
    u32 (flatPseudoChannel * m.topology.bankGroupsPerPseudoChannel + a.bankGroup)
  { a with
    flatPseudoChannel := flatPseudoChannel
    flatSid := a.stack
    flatBankGroup := flatBankGroup
    flatBank := u32 (flatBankGroup * m.topology.banksPerBankGroup + a.bank) }

def map (address : Nat) : Except HbmError HbmAddress :=
  let result := m.decode address
  if m.outside result then
    .error (.outOfRange "address mapping field is outside topology")
  else .ok (m.flatten result)

def bankCount : Nat :=
  u32 (m.topology.channelCount * m.topology.pseudoChannelsPerChannel *
    m.topology.bankGroupsPerPseudoChannel * m.topology.banksPerBankGroup)

def nextMappingBoundary (address : Nat) : Nat :=
  m.interleaveBytes - address % m.interleaveBytes

def bankAddress (flatBank : Nat) : Except HbmError HbmAddress :=
  let t := m.topology
  if flatBank ≥ m.bankCount then
    .error (.outOfRange "flat bank is outside topology")
  else
    let flatBankGroup := flatBank / t.banksPerBankGroup
    let flatPseudoChannel := flatBankGroup / t.bankGroupsPerPseudoChannel
    let flatChannel := flatPseudoChannel / t.pseudoChannelsPerChannel
    let stack := flatChannel / t.channelsPerStack
    .ok
      { flatBank := flatBank
        bank := flatBank % t.banksPerBankGroup
        flatBankGroup := flatBankGroup
        bankGroup := flatBankGroup % t.bankGroupsPerPseudoChannel
        flatPseudoChannel := flatPseudoChannel
        pseudoChannel := flatPseudoChannel % t.pseudoChannelsPerChannel
        flatChannel := flatChannel
        stack := stack
        flatSid := stack
        channel := flatChannel % t.channelsPerStack }

end HbmAddressMapper

end HbmSim
