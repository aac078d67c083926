import HbmSim.Guarantees.Addresses
import HbmSim.Guarantees.Replay
import HbmSim.Guarantees.TraceLines
import HbmSim.Validation.Traces

/-!
The traces of the generator are read back.

The generator places a cell under a profile and writes it as a line of text; the program
reads the line and its mapper takes the address apart. What comes out is the row that went in.
-/

namespace HbmSim

open HbmSim.Lib HbmSim.Validation

/-- The transaction is the row, and its address is mapped to the row's cell. -/
structure ReadAs (profile : Profile) (entry : TraceEntry) (tx : HbmTransaction) : Prop where
  op : tx.op = entry.op
  arrivalTime : tx.arrivalTime = entry.arrival
  sizeBytes : tx.sizeBytes = entry.size
  cell : ∃ a, profile.mapper.map tx.address = .ok a ∧ a.semantic = entry.address

/-- The numbers of a row are 64-bit integers. -/
def Validation.TraceEntry.Fits (entry : TraceEntry) : Prop :=
  entry.arrival < 2 ^ 64 ∧ entry.size < 2 ^ 64

/-! ### Fields -/

/-- A field without commas is split off at the comma after it. -/
theorem splitFrom_field {field : List Char} (plain : ',' ∉ field) (read stream : List Char) :
    splitFrom read (field ++ ',' :: stream) = (read ++ field) :: splitFrom [] stream := by
  induction field generalizing read with
  | nil => rw [List.nil_append, splitFrom, if_pos rfl, List.append_nil]
  | cons c field ih =>
      obtain ⟨other, plain⟩ := not_or.mp (mt List.mem_cons.mpr plain)
      rw [List.cons_append, splitFrom, if_neg fun same => other same.symm, ih plain]
      simp

/-- The last field is what remains. -/
theorem splitFrom_last {field : List Char} (plain : ',' ∉ field) (some : field ≠ [])
    (read : List Char) : splitFrom read field = [read ++ field] := by
  induction field generalizing read with
  | nil => exact absurd rfl some
  | cons c field ih =>
      obtain ⟨other, plain⟩ := not_or.mp (mt List.mem_cons.mpr plain)
      rw [splitFrom, if_neg fun same => other same.symm]
      by_cases last : field = []
      · subst last
        unfold splitFrom
        rw [if_neg (by simp)]
      · rw [ih plain last]
        simp

/-- No digit is a comma. -/
theorem comma_not_digit {base : Nat} {digits : List Char}
    (all : ∀ c ∈ digits, isDigit base c = true) : ',' ∉ digits :=
  fun mem => Bool.false_ne_true (all ',' mem)

/-- A numeral holds no comma. -/
theorem comma_not_toDigits {base : Nat} (two : 2 ≤ base) (small : base ≤ 16) (n : Nat) :
    ',' ∉ Nat.toDigits base n :=
  comma_not_digit (written_toDigits two small n).all

/-- The fields of a written line are the ones it is written from. -/
theorem splitCsv_rowText (entry : TraceEntry) (address : Nat) :
    splitCsv (rowText entry address) = [Nat.toDigits 10 entry.arrival, (opText entry.op).toList,
      '0' :: 'x' :: Nat.toDigits 16 address, Nat.toDigits 10 entry.size] := by
  have two : 2 ≤ 10 := by decide
  have small : 10 ≤ 16 := by decide
  have op : ',' ∉ (opText entry.op).toList := by cases entry.op <;> decide
  have hex : ',' ∉ '0' :: 'x' :: Nat.toDigits 16 address := by
    have digits := comma_not_toDigits (show 2 ≤ 16 by decide) (Nat.le_refl _) address
    simp [digits]
  unfold splitCsv rowText
  rw [splitFrom_field (comma_not_toDigits two small _), splitFrom_field op, splitFrom_field hex,
    splitFrom_last (comma_not_toDigits two small _) Nat.toDigits_ne_nil]
  simp

/-- A row that is written is not skipped when it is read. -/
theorem rowText_not_skipped (entry : TraceEntry) (address : Nat) :
    isSkipped (rowText entry address) = false := by
  obtain ⟨c, rest, same⟩ :=
    List.exists_cons_of_ne_nil (Nat.toDigits_ne_nil (n := entry.arrival) (b := 10))
  have digit := (written_toDigits (show 2 ≤ 10 by decide) (by decide) entry.arrival).all c
    (same ▸ List.mem_cons_self)
  have other : c ≠ '#' := by
    rintro rfl
    cases digit
  unfold isSkipped rowText
  rw [same]
  simpa using other

/-! ### Rows -/

/-- A written line is parsed as its row. -/
theorem parseLine_rowText (id : Nat) {entry : TraceEntry} (fits : entry.Fits) {address : Nat}
    (bound : address < 2 ^ 64) : parseLine id (rowText entry address) = .ok (some
      { id, op := entry.op, address, sizeBytes := entry.size, arrivalTime := entry.arrival }) := by
  have op : parseOp (opText entry.op).toList = .ok entry.op := by cases entry.op <;> rfl
  have arrival := parseU64_exactly ⟨numeral_decimal entry.arrival, fits.1⟩
  have size := parseU64_exactly ⟨numeral_decimal entry.size, fits.2⟩
  have address := parseU64_exactly ⟨numeral_hexadecimal address, bound⟩
  unfold parseLine
  rw [rowText_not_skipped, splitCsv_rowText]
  show some <$> parseRow id _ _ _ _ none = _
  unfold parseRow
  rw [op, address, size, arrival]
  rfl

/-- What is decoded is in range. -/
theorem decode_inRange (profile : Profile) (address : Nat) :
    (decode profile address).InRange profile.mapper := by
  cases profile with
  | hbm2_2000 =>
      rw [decode_hbm2]
      exact ⟨Nat.mod_lt _ (by decide), Nat.mod_lt _ (by decide), Nat.mod_lt _ (by decide),
        Nat.mod_lt _ (by decide), Nat.mod_lt _ (by decide)⟩
  | hbm3_6400 =>
      exact ⟨Nat.mod_lt _ (by decide), Nat.mod_lt _ (by decide), Nat.mod_lt _ (by decide),
        Nat.mod_lt _ (by decide), Nat.mod_lt _ (by decide)⟩

/-- What is encoded fits 64 bits. -/
theorem encode_lt {profile : Profile} {s : SemanticAddress} (within : s.InRange profile.mapper) :
    encode profile s < 2 ^ 64 := by
  obtain ⟨pseudo, group, bank, row, column⟩ := inRange_bounds within
  cases profile with
  | hbm2_2000 =>
      rw [encode_hbm2 within]
      omega
  | hbm3_6400 =>
      dsimp only [encode]
      omega

/-- The mapper and the Python tool decode alike. -/
theorem map_semantic (profile : Profile) (address : Nat) :
    ∃ a, profile.mapper.map address = .ok a ∧ a.semantic = decode profile address := by
  cases profile with
  | hbm2_2000 =>
      obtain ⟨a, run, semantic, -⟩ := map_hbm2 address
      exact ⟨a, run, semantic⟩
  | hbm3_6400 =>
      obtain ⟨a, run, semantic, -⟩ := map_hbm3 address
      exact ⟨a, run, semantic⟩

/-- A row is written if and only if its cell exists. -/
theorem writeRow_ok {profile : Profile} {entry : TraceEntry} {line : List Char} :
    writeRow profile entry = .ok line ↔ entry.address.InRange profile.mapper ∧
      line = rowText entry (encode profile entry.address) := by
  unfold writeRow
  dsimp only
  constructor
  · intro run
    split at run
    · cases run
    · rename_i same
      cases run
      have range := decode_inRange profile (encode profile entry.address)
      rw [not_not.mp same] at range
      exact ⟨range, rfl⟩
  · rintro ⟨within, rfl⟩
    exact if_neg (not_not.mpr (decode_encode within))

/-! ### Traces -/

/-- A trace is written row by row, if all its rows are in range. -/
theorem mapM_writeRow_ok {profile : Profile} {rows : List TraceEntry} {lines : List (List Char)} :
    rows.mapM (writeRow profile) = .ok lines ↔
      (∀ entry ∈ rows, entry.address.InRange profile.mapper) ∧
        lines = rows.map fun entry => rowText entry (encode profile entry.address) := by
  induction rows generalizing lines with
  | nil =>
      rw [List.mapM_nil]
      constructor
      · intro run
        cases run
        exact ⟨nofun, rfl⟩
      · rintro ⟨-, rfl⟩
        rfl
  | cons entry rows ih =>
      rw [List.mapM_cons]
      simp only [bind_eq_ok, writeRow_ok, ih, List.forall_mem_cons, List.map_cons]
      constructor
      · rintro ⟨line, ⟨first, rfl⟩, rest, ⟨others, rfl⟩, run⟩
        cases run
        exact ⟨⟨first, others⟩, rfl⟩
      · rintro ⟨⟨first, others⟩, rfl⟩
        exact ⟨_, ⟨first, rfl⟩, _, ⟨others, rfl⟩, rfl⟩

/-- A generated trace is parsed as its rows. -/
theorem parseTrace_rows (profile : Profile) {rows : List TraceEntry}
    (within : ∀ entry ∈ rows, entry.address.InRange profile.mapper)
    (fits : ∀ entry ∈ rows, entry.Fits) (id : Nat) :
    ∃ txs, parseTrace id (rows.map fun entry => rowText entry (encode profile entry.address)) =
      .ok txs ∧ List.Forall₂ (ReadAs profile) rows txs := by
  induction rows generalizing id with
  | nil => exact ⟨[], rfl, .nil⟩
  | cons entry rows ih =>
      obtain ⟨inside, within⟩ := List.forall_mem_cons.mp within
      obtain ⟨small, fits⟩ := List.forall_mem_cons.mp fits
      obtain ⟨txs, parsed, read⟩ := ih within fits (id + 1)
      obtain ⟨a, run, semantic⟩ := map_semantic profile (encode profile entry.address)
      let tx : HbmTransaction :=
        { id := id
          op := entry.op
          address := encode profile entry.address
          sizeBytes := entry.size
          arrivalTime := entry.arrival }
      have cell : ReadAs profile entry tx :=
        ⟨rfl, rfl, rfl, a, run, semantic.trans (decode_encode inside)⟩
      refine ⟨tx :: txs, ?_, .cons cell read⟩
      rw [List.map_cons, parseTrace, parseLine_rowText id small (encode_lt inside), ok_bind]
      dsimp only
      rw [parsed]
      rfl

/-- The generator writes the traces of the cells that exist, and the program reads back what
it writes: the rows in order, each at its cell. -/
theorem trace_read_back (profile : Profile) {rows : List TraceEntry}
    (fits : ∀ entry ∈ rows, entry.Fits) :
    ((∃ lines, writeTrace profile rows = .ok lines) ↔
      ∀ entry ∈ rows, entry.address.InRange profile.mapper) ∧
    ∀ lines, writeTrace profile rows = .ok lines →
      ∃ txs, parseTrace 1 lines = .ok txs ∧ List.Forall₂ (ReadAs profile) rows txs := by
  have written : ∀ lines, writeTrace profile rows = .ok lines ↔
      (∀ entry ∈ rows, entry.address.InRange profile.mapper) ∧
        lines = traceHeader :: rows.map fun entry =>
          rowText entry (encode profile entry.address) := by
    intro lines
    unfold writeTrace
    simp only [bind_eq_ok, mapM_writeRow_ok]
    constructor
    · rintro ⟨_, ⟨within, rfl⟩, run⟩
      cases run
      exact ⟨within, rfl⟩
    · rintro ⟨within, rfl⟩
      exact ⟨_, ⟨within, rfl⟩, rfl⟩
  refine ⟨⟨?_, fun within => ⟨_, (written _).mpr ⟨within, rfl⟩⟩⟩, ?_⟩
  · rintro ⟨lines, run⟩
    exact ((written lines).mp run).1
  · intro lines run
    obtain ⟨within, rfl⟩ := (written lines).mp run
    exact parseTrace_rows profile within fits 1

/-- The generator writes all its workloads under either profile, and they are read back. -/
theorem trace_read_back_workloads : workloads.length = 7 ∧
    ∀ profile, ∀ rows ∈ workloads, ∃ lines txs, writeTrace profile rows = .ok lines ∧
      parseTrace 1 lines = .ok txs ∧ List.Forall₂ (ReadAs profile) rows txs := by
  refine ⟨rfl, ?_⟩
  intro profile rows mem
  have fits : ∀ entry ∈ rows, entry.Fits := by
    have all : ∀ rows ∈ workloads, ∀ entry ∈ rows,
        entry.arrival < 2 ^ 64 ∧ entry.size < 2 ^ 64 := by decide +kernel
    exact all rows mem
  have within : ∀ entry ∈ rows, entry.address.InRange profile.mapper := by
    have all : ∀ rows ∈ workloads, ∀ entry ∈ rows, entry.address.pseudoChannel < 2 ∧
        entry.address.bankGroup < 4 ∧ entry.address.bank < 4 ∧ entry.address.row < 16384 ∧
          entry.address.column < 32 := by decide +kernel
    intro entry he
    obtain ⟨pseudo, group, bank, row, column⟩ := all rows mem entry he
    cases profile <;> exact ⟨pseudo, group, bank, row, column⟩
  obtain ⟨lines, run⟩ := (trace_read_back profile fits).1.mpr within
  obtain ⟨txs, parsed, read⟩ := (trace_read_back profile fits).2 lines run
  exact ⟨lines, txs, run, parsed, read⟩

end HbmSim
