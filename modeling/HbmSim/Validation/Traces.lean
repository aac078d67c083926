import HbmSim.Validation.Addresses

/-!
The traces of the validation tools (`generate_microtraces.py`).

The generator places the rows of its workloads under a profile and writes one line for each,
behind a comment. A file is the list of its lines.
-/

namespace HbmSim.Validation

/-- The `AssertionError` of a tool. -/
structure AssertionError where
  message : String
deriving DecidableEq, Repr

/-- A `TraceRow`. -/
structure TraceEntry where
  arrival : Nat
  op : HbmOp
  address : SemanticAddress
  size : Nat
deriving DecidableEq, Repr

def opText : HbmOp → String
  | .read => "READ"
  | .write => "WRITE"

/-- `str` of a profile's name. -/
def Profile.text : Profile → String
  | .hbm2_2000 => "hbm2_2000"
  | .hbm3_6400 => "hbm3_6400"

/-- `str` of the tuple of a semantic address. -/
def SemanticAddress.text (s : SemanticAddress) : String :=
  "(" ++ ", ".intercalate [toString s.pseudoChannel, toString s.bankGroup, toString s.bank,
    toString s.row, toString s.column] ++ ")"

/-- The first line of a trace. -/
def traceHeader : List Char := "# arrival_ps,op,address,size_bytes".toList

/-- The line of a row whose address has been placed. -/
def rowText (entry : TraceEntry) (address : Nat) : List Char :=
  Nat.toDigits 10 entry.arrival ++ ',' :: ((opText entry.op).toList ++ ',' ::
    ('0' :: 'x' :: Nat.toDigits 16 address ++ ',' :: Nat.toDigits 10 entry.size))

/-- One round of the loop of `write_trace`. -/
def writeRow (profile : Profile) (entry : TraceEntry) : Except AssertionError (List Char) :=
  let address := encode profile entry.address
  if decode profile address ≠ entry.address then
    .error ⟨profile.text ++ ": semantic address round trip failed: " ++ entry.address.text⟩
  else .ok (rowText entry address)

/-- The lines `write_trace` writes. -/
def writeTrace (profile : Profile) (rows : List TraceEntry) :
    Except AssertionError (List (List Char)) := do
  let lines ← rows.mapM (writeRow profile)
  return traceHeader :: lines

/-- The rows of `workloads()`, in order. -/
def workloads : List (List TraceEntry) :=
  let interval := 10000
  [ (List.range 32).map fun index => ⟨index * interval, .read, ⟨0, 0, 0, 7, index % 32⟩, 32⟩,
    (List.range 32).map fun index =>
      ⟨index * interval, .read, ⟨0, 0, 0, 7 + index % 2, index / 2 % 32⟩, 32⟩,
    (List.range 32).map fun index =>
      ⟨index * interval, .read, ⟨0, index / 4 % 4, index % 4, 7, 0⟩, 32⟩,
    (List.range 48).map fun index =>
      ⟨index * interval, if index % 3 = 0 then .write else .read, ⟨0, 0, 0, 7, index % 32⟩, 32⟩,
    (List.range 64).map fun index =>
      ⟨index * interval, .read, ⟨0, 0, 0, 7 + index / 32, index % 32⟩, 32⟩,
    (List.range 32).map fun index => ⟨index * interval, .write, ⟨0, 0, 0, 7, index % 32⟩, 32⟩,
    (List.range 128).map fun index =>
      ⟨index * 5000, .read, ⟨index % 2, index / 2 % 4, index / 8 % 4, 7, index % 32⟩, 32⟩ ]

end HbmSim.Validation
