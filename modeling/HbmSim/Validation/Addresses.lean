import HbmSim.Lib.BitFields
import HbmSim.Mapping

/-!
The addresses of the validation tools (`generate_microtraces.py`,
`prepare_reference_inputs.py`, `prepare_hbm3_inputs.py`).

The tools place a semantic address for a profile, take a byte address apart again, and
write it the way the reference simulators read it: a hierarchical vector for Ramulator, a
dense address without the SID bit for DRAMSys. Python integers are unbounded; the ones of
the tools that can be negative are `Int`.
-/

namespace HbmSim.Validation

open HbmSim.Lib

inductive Profile where
  | hbm2_2000 | hbm3_6400
deriving DecidableEq, Repr

structure SemanticAddress where
  pseudoChannel : Nat
  bankGroup : Nat
  bank : Nat
  row : Nat
  column : Nat
deriving DecidableEq, Repr

def encode : Profile → SemanticAddress → Nat
  | .hbm2_2000, s =>
      (s.pseudoChannel <<< 5) ||| (s.bankGroup <<< 6) ||| (s.bank <<< 8) |||
        (s.column <<< 11) ||| (s.row <<< 16)
  | .hbm3_6400, s =>
      let line :=
        (((s.pseudoChannel * 4 + s.bankGroup) * 4 + s.bank) * 16384 + s.row) * 32 + s.column
      line * 32

def decode : Profile → Nat → SemanticAddress
  | .hbm2_2000, address =>
      { pseudoChannel := (address >>> 5) &&& 1
        bankGroup := (address >>> 6) &&& 3
        bank := (address >>> 8) &&& 3
        row := (address >>> 16) &&& 0x3FFF
        column := (address >>> 11) &&& 0x1F }
  | .hbm3_6400, address =>
      let line := address / 32
      let column := line % 32
      let line := line / 32
      let row := line % 16384
      let line := line / 16384
      let bank := line % 4
      let line := line / 4
      let bankGroup := line % 4
      let line := line / 4
      { pseudoChannel := line % 2, bankGroup, bank, row, column }

/-- The text of a hierarchical vector: its components between commas. -/
def vectorText (channel pseudoChannel sid bankGroup bank row column : Nat) : String :=
  ",".intercalate
    [toString channel, toString pseudoChannel, toString sid, toString bankGroup, toString bank,
      toString row, toString column]

def hbm2Vector (address : Nat) : String :=
  let pseudoChannel := (address >>> 5) &&& 0x1
  let bankGroup := (address >>> 6) &&& 0x3
  let bank := (address >>> 8) &&& 0x3
  let sid := (address >>> 10) &&& 0x1
  let column := (address >>> 11) &&& 0x1F
  let row := (address >>> 16) &&& 0x3FFF
  vectorText 0 pseudoChannel sid bankGroup bank row column

def hbm3Vector (address : Nat) : String :=
  let line := address / 32
  let channel := 0
  let column := line % 32
  let line := line / 32
  let row := line % 16384
  let line := line / 16384
  let bank := line % 4
  let line := line / 4
  let bankGroup := line % 4
  let line := line / 4
  let pseudoChannel := line % 2
  let sid := 0
  vectorText channel pseudoChannel sid bankGroup bank row column

/-! ### The DRAMSys form -/

/-- The `ValueError` of a tool. -/
structure ValueError where
  message : String
deriving DecidableEq, Repr

def dramsysAddress (address : Nat) : Except ValueError Nat :=
  if address &&& (1 <<< 10) ≠ 0 then
    .error ⟨"V0.3 DRAMSys input requires the profile's fixed SID bit to be zero"⟩
  else .ok ((address &&& ((1 <<< 10) - 1)) ||| ((address >>> 11) <<< 10))

/-- The `address_mapping` of a profile file. -/
structure ProfileMapping where
  burstBits : List Int
  pseudoChannelBit : List Int
  bankGroupBits : List Int
  bankBits : List Int
  sidOrStackBit : List Int
  sidOrStackValue : Int
  columnBits : List Int
  rowBits : List Int

/-- The fields of the `hbm2_organization` of a profile file the mapping is checked against. -/
structure ProfileOrganization where
  bankGroupsPerPseudoChannel : Nat
  banksPerBankGroup : Nat
  columnsPerRow : Nat
  rowsPerBank : Nat

structure ProfileFile where
  addressMapping : ProfileMapping
  hbm2Organization : ProfileOrganization

/-- The widths the tool compares, in the order of its dictionaries. -/
structure FieldWidths where
  bankGroup : Nat
  bank : Nat
  column : Nat
  row : Nat
deriving DecidableEq

/-- A dictionary of widths as Python prints it. -/
def FieldWidths.repr (w : FieldWidths) : String :=
  "\x7b'bank group': " ++ toString w.bankGroup ++ ", 'bank': " ++ toString w.bank ++
    ", 'column': " ++ toString w.column ++ ", 'row': " ++ toString w.row ++ "\x7d"

/-- The `addressmapping` object DRAMSys reads. -/
structure DramsysMapping where
  burstBit : List Int
  pseudochannelBit : List Int
  bankgroupBit : List Int
  bankBit : List Int
  columnBit : List Int
  rowBit : List Int
deriving DecidableEq

/-- `int(math.log2(n))`, which refuses zero. -/
def log2 : Nat → Except ValueError Nat
  | 0 => .error ⟨"math domain error"⟩
  | n => .ok (Nat.log2 n)

def writeDramsysMapping (profile : ProfileFile) : Except ValueError DramsysMapping := do
  let mapping := profile.addressMapping
  let organization := profile.hbm2Organization
  if mapping.sidOrStackValue ≠ 0 ∨ mapping.sidOrStackBit ≠ [10] then
    throw ⟨"DRAMSys V0.3 mapping expects a fixed-zero SID bit at bit 10"⟩
  let expectedWidths : FieldWidths :=
    { bankGroup := ← log2 organization.bankGroupsPerPseudoChannel
      bank := ← log2 organization.banksPerBankGroup
      column := ← log2 organization.columnsPerRow
      row := ← log2 organization.rowsPerBank }
  let actualWidths : FieldWidths :=
    { bankGroup := mapping.bankGroupBits.length
      bank := mapping.bankBits.length
      column := mapping.columnBits.length
      row := mapping.rowBits.length }
  if actualWidths ≠ expectedWidths then
    throw ⟨"profile organization and address mapping disagree: " ++ actualWidths.repr ++
      " != " ++ expectedWidths.repr⟩
  return {
    burstBit := mapping.burstBits
    pseudochannelBit := mapping.pseudoChannelBit
    bankgroupBit := mapping.bankGroupBits
    bankBit := mapping.bankBits
    columnBit := mapping.columnBits.map (· - 1)
    rowBit := mapping.rowBits.map (· - 1) }

/-- `validation/profiles/hbm2_2000.json`. -/
def ProfileFile.hbm2_2000 : ProfileFile where
  addressMapping :=
    { burstBits := [0, 1, 2, 3, 4]
      pseudoChannelBit := [5]
      bankGroupBits := [6, 7]
      bankBits := [8, 9]
      sidOrStackBit := [10]
      sidOrStackValue := 0
      columnBits := [11, 12, 13, 14, 15]
      rowBits := [16, 17, 18, 19, 20, 21, 22, 23, 24, 25, 26, 27, 28, 29] }
  hbm2Organization :=
    { bankGroupsPerPseudoChannel := 4
      banksPerBankGroup := 4
      columnsPerRow := 32
      rowsPerBank := 16384 }

/-- The field DRAMSys reads from the bit positions, the lowest first. -/
def DramsysMapping.readField (bits : List Int) (address : Nat) : Nat :=
  BitFields.read (bits.map Int.toNat) address

/-- The fields DRAMSys reads from one of its addresses. -/
def DramsysMapping.read (mapping : DramsysMapping) (address : Nat) : SemanticAddress where
  pseudoChannel := readField mapping.pseudochannelBit address
  bankGroup := readField mapping.bankgroupBit address
  bank := readField mapping.bankBit address
  row := readField mapping.rowBit address
  column := readField mapping.columnBit address

end HbmSim.Validation
