import HbmSim.Cli.Parsing

/-!
Trace lines are parsed exactly.

A line is the transaction of its comma-separated fields if each number field is a numeral and
nothing else. The program also takes lines that only begin that way: `parse_u64` drops the count
of consumed characters, a field at the end can be missing behind its comma, and a client is cut
to 32 bits. Lines of any other kind are parsed as the grammar says.
-/

namespace HbmSim

open HbmSim.Lib

/-! ### Fields -/

/-- The fields without an empty one at the end. -/
def withoutEmptyEnd (fields : List (List Char)) : List (List Char) :=
  if fields.getLast? = some [] then fields.dropLast else fields

theorem withoutEmptyEnd_cons {field : List Char} {fields : List (List Char)} (more : fields ≠ []) :
    withoutEmptyEnd (field :: fields) = field :: withoutEmptyEnd fields := by
  unfold withoutEmptyEnd
  rw [List.getLast?_cons_of_ne_nil more, List.dropLast_cons_of_ne_nil more]
  split <;> rfl

/-- getline splits at every comma, and drops an empty last field. -/
theorem splitFrom_eq (stream field : List Char) :
    splitFrom field stream =
      withoutEmptyEnd (stream.splitOnPPrepend (· == ',') field.reverse) := by
  induction stream generalizing field with
  | nil =>
      unfold splitFrom withoutEmptyEnd
      simp
  | cons c stream ih =>
      unfold splitFrom
      rw [List.splitOnPPrepend_cons_eq_if]
      by_cases comma : c = ','
      · rw [if_pos comma, if_pos (beq_iff_eq.mpr comma), List.reverse_reverse,
          withoutEmptyEnd_cons (List.splitOnP_ne_nil _ _), ih []]
        rfl
      · rw [if_neg comma, if_neg fun h => comma (beq_iff_eq.mp h), ih, List.reverse_append]
        rfl

/-- `split_csv` splits at every comma, but gives no empty field at the end. -/
theorem splitCsv_eq (line : List Char) : splitCsv line = withoutEmptyEnd (line.splitOn ',') :=
  splitFrom_eq line []

/-- The last field is empty after a final comma, or where nothing was read. -/
theorem splitOnPPrepend_getLast? (stream read : List Char) :
    (stream.splitOnPPrepend (· == ',') read).getLast? = some [] ↔
      stream.getLast? = some ',' ∨ stream = [] ∧ read = [] := by
  induction stream generalizing read with
  | nil => simp
  | cons c stream ih =>
      have last : (c :: stream).getLast? = some ',' ↔
          stream.getLast? = some ',' ∨ stream = [] ∧ c = ',' := by
        cases stream <;> simp
      rw [List.splitOnPPrepend_cons_eq_if, last]
      by_cases comma : c = ','
      · rw [if_pos (beq_iff_eq.mpr comma),
          List.getLast?_cons_of_ne_nil (List.splitOnP_ne_nil _ _)]
        refine (ih []).trans ?_
        simp [comma]
      · rw [if_neg fun h => comma (beq_iff_eq.mp h), ih]
        simp [comma]

/-- The last field is empty if the line ends in a comma. -/
theorem splitOn_getLast? {line : List Char} (some_ : line ≠ []) :
    (line.splitOn ',').getLast? = some [] ↔ line.getLast? = some ',' := by
  refine (splitOnPPrepend_getLast? line []).trans ?_
  simp [some_]

/-! ### The grammar -/

/-- The field names an operation. -/
def OpName (field : List Char) : HbmOp → Prop
  | .read => field = "READ".toList ∨ field = "read".toList
  | .write => field = "WRITE".toList ∨ field = "write".toList

/-- The fields are the row of a transaction: an arrival, an operation, an address, a size, and
perhaps a client, with the numbers written in some way. -/
inductive RowOf (number client : List Char → Nat → Prop) (id : Nat) :
    List (List Char) → HbmTransaction → Prop
  | anonymous {arrives names addresses sizes : List Char} {op : HbmOp}
      {arrivalTime address sizeBytes : Nat} (named : OpName names op)
      (addressed : number addresses address) (sized : number sizes sizeBytes)
      (arrived : number arrives arrivalTime) :
      RowOf number client id [arrives, names, addresses, sizes]
        { id, op, address, sizeBytes, arrivalTime }
  | owned {arrives names addresses sizes owns : List Char} {op : HbmOp}
      {arrivalTime address sizeBytes owner : Nat} (named : OpName names op)
      (addressed : number addresses address) (sized : number sizes sizeBytes)
      (arrived : number arrives arrivalTime) (owned : client owns owner) :
      RowOf number client id [arrives, names, addresses, sizes, owns]
        { id, op, address, sizeBytes, arrivalTime, client := owner }

/-- The rows of the trace format: numerals of 64 bits, and one of 32 bits for the client. -/
abbrev TraceRow : Nat → List (List Char) → HbmTransaction → Prop :=
  RowOf (Exactly (2 ^ 64)) (Exactly (2 ^ 32))

/-- A line becomes a transaction if and only if its fields are the row of one, and stops the
replay otherwise. -/
structure ParsedExactly (id : Nat) (line : List Char) : Prop where
  accepts : ∀ tx, parseLine id line = .ok (some tx) ↔ TraceRow id (line.splitOn ',') tx
  stops : (∀ tx, ¬ TraceRow id (line.splitOn ',') tx) → ∃ e, parseLine id line = .error e

/-- If the line can be read at all, then it does not end in a comma, and its numbers are numerals
of their widths. -/
def Tidy (line : List Char) : Prop :=
  ∀ (arrival op address size : List Char) (client : Option (List Char)),
    withoutEmptyEnd (line.splitOn ',') = [arrival, op, address, size] ++ client.toList →
      (∃ o, OpName op o) → Readable arrival → Readable address → Readable size →
        (∀ c ∈ client, Readable c) →
          line.getLast? ≠ some ',' ∧ (∃ n, Exactly (2 ^ 64) arrival n) ∧
            (∃ n, Exactly (2 ^ 64) address n) ∧ (∃ n, Exactly (2 ^ 64) size n) ∧
              ∀ c ∈ client, ∃ n, Exactly (2 ^ 32) c n

/-! ### What is parsed -/

section

variable {id : Nat} {line : List Char} {fields : List (List Char)} {tx : HbmTransaction}

/-- An operation is parsed from its names only. -/
theorem parseOp_ok {field : List Char} {op : HbmOp} :
    parseOp field = .ok op ↔ OpName field op := by
  unfold parseOp
  constructor
  · intro run
    split at run
    · rename_i named
      cases run
      exact named
    · split at run
      · rename_i named
        cases run
        exact named
      · cases run
  · intro named
    cases op with
    | read => exact if_pos named
    | write =>
        have other : ¬ (field = "READ".toList ∨ field = "read".toList) := by
          rcases named with rfl | rfl <;> decide
        exact (if_neg other).trans (if_pos named)

/-- A row is parsed field by field. -/
theorem parseRow_ok {arrival op address size : List Char} {client : Option (List Char)} :
    parseRow id arrival op address size client = .ok tx ↔
      ∃ op' addr sizeBytes arrivalTime owner, OpName op op' ∧ parseU64 address = .ok addr ∧
        parseU64 size = .ok sizeBytes ∧ parseU64 arrival = .ok arrivalTime ∧
          parseClient client = .ok owner ∧
            tx = { id, op := op', address := addr, sizeBytes, arrivalTime, client := owner } := by
  unfold parseRow
  simp only [bind_eq_ok, parseOp_ok, mapError_eq_ok]
  constructor
  · rintro ⟨op', named, addr, addressed, sizeBytes, sized, arrivalTime, arrived, owner, owned, same⟩
    exact ⟨op', addr, sizeBytes, arrivalTime, owner, named, addressed, sized, arrived, owned,
      (Except.ok.inj same).symm⟩
  · rintro ⟨op', addr, sizeBytes, arrivalTime, owner, named, addressed, sized, arrived, owned, rfl⟩
    exact ⟨op', named, addr, addressed, sizeBytes, sized, arrivalTime, arrived, owner, owned, rfl⟩

/-- The program reads the rows whose numbers it can parse. -/
theorem parseFields_ok : parseFields id fields = .ok tx ↔
    RowOf (fun field n => parseU64 field = .ok n)
      (fun field n => parseClient (some field) = .ok n) id fields tx := by
  constructor
  · intro run
    unfold parseFields at run
    split at run
    · obtain ⟨op, _, _, _, owner, named, addressed, sized, arrived, owned, rfl⟩ :=
        parseRow_ok.mp run
      cases owned
      exact .anonymous named addressed sized arrived
    · obtain ⟨op, _, _, _, owner, named, addressed, sized, arrived, owned, rfl⟩ :=
        parseRow_ok.mp run
      exact .owned named addressed sized arrived owned
    · cases run
  · intro row
    cases row with
    | anonymous named addressed sized arrived =>
        exact parseRow_ok.mpr ⟨_, _, _, _, _, named, addressed, sized, arrived, rfl, rfl⟩
    | owned named addressed sized arrived owned =>
        exact parseRow_ok.mpr ⟨_, _, _, _, _, named, addressed, sized, arrived, owned, rfl⟩

/-- A client below the bound is read as it is written. -/
theorem parseClient_exactly {field : List Char} {n : Nat} (h : Exactly (2 ^ 32) field n) :
    parseClient (some field) = .ok n := by
  have wide : Exactly (2 ^ 64) field n := ⟨h.1, Nat.lt_trans h.2 (by decide)⟩
  show u32 <$> (parseU64 field).mapError ReplayError.thrown = _
  rw [parseU64_exactly wide]
  exact congrArg Except.ok (u32_of_lt h.2)

/-- A client is parsed if it is readable. -/
theorem parseClient_isOk {field : List Char} :
    (∃ n, parseClient (some field) = .ok n) ↔ Readable field := by
  rw [← parseU64_isOk]
  unfold parseClient
  simp only [map_eq_ok, mapError_eq_ok]
  constructor
  · rintro ⟨_, n, read, -⟩
    exact ⟨n, read⟩
  · rintro ⟨n, read⟩
    exact ⟨_, n, read, rfl⟩

/-- A numeral is not empty. -/
theorem Exactly.ne_nil {bound n : Nat} {field : List Char} (h : Exactly bound field n) :
    field ≠ [] := by
  obtain ⟨c, text, rfl, -⟩ := h.1.first_digit
  exact List.cons_ne_nil _ _

/-- A numeral is parsed to its value. -/
theorem Exactly.of_parse {field : List Char} {n m : Nat} (h : Exactly (2 ^ 64) field n)
    (run : parseU64 field = .ok m) : Exactly (2 ^ 64) field m := by
  rw [parseU64_exactly h] at run
  cases run
  exact h

/-- A row of the format has no empty field at the end. -/
theorem row_getLast? (row : TraceRow id fields tx) : fields.getLast? ≠ some [] := by
  intro empty
  cases row with
  | anonymous _ _ sized => exact sized.ne_nil (Option.some.inj empty)
  | owned _ _ _ _ owned => exact owned.ne_nil (Option.some.inj empty)

/-- A row ends in no empty field. -/
theorem withoutEmptyEnd_row (row : TraceRow id fields tx) : withoutEmptyEnd fields = fields :=
  if_neg (row_getLast? row)

/-- The program reads the rows of the format as they are meant. -/
theorem parseFields_row (row : TraceRow id fields tx) : parseFields id fields = .ok tx := by
  refine parseFields_ok.mpr ?_
  cases row with
  | anonymous named addressed sized arrived =>
      exact .anonymous named (parseU64_exactly addressed) (parseU64_exactly sized)
        (parseU64_exactly arrived)
  | owned named addressed sized arrived owned =>
      exact .owned named (parseU64_exactly addressed) (parseU64_exactly sized)
        (parseU64_exactly arrived) (parseClient_exactly owned)

variable (read : isSkipped line = false)

include read

/-- A line is parsed as its fields are. -/
theorem parseLine_ok : parseLine id line = .ok (some tx) ↔
    parseFields id (withoutEmptyEnd (line.splitOn ',')) = .ok tx := by
  unfold parseLine
  rw [read, splitCsv_eq]
  exact map_eq_ok.trans ⟨by rintro ⟨_, run, same⟩; cases same; exact run, fun run => ⟨tx, run, rfl⟩⟩

/-- A line that is a row is not empty. -/
theorem line_ne_nil : line ≠ [] := by
  rintro rfl
  cases read

/-- Every line that is not skipped is parsed exactly if and only if it is tidy. -/
theorem parsed_exactly_iff : ParsedExactly id line ↔ Tidy line := by
  have comma := splitOn_getLast? (line_ne_nil read)
  constructor
  -- the parser reads every readable field, so a line it reads exactly has only whole numerals
  · rintro ⟨accepts, -⟩ arrival op address size client fields ⟨op', named⟩ arrived addressed sized
      owned
    obtain ⟨_, arrived⟩ := parseU64_isOk.mpr arrived
    obtain ⟨_, addressed⟩ := parseU64_isOk.mpr addressed
    obtain ⟨_, sized⟩ := parseU64_isOk.mpr sized
    have parses : ∃ tx, parseFields id (withoutEmptyEnd (line.splitOn ',')) = .ok tx := by
      rw [fields]
      cases client with
      | none => exact ⟨_, parseFields_ok.mpr (.anonymous named addressed sized arrived)⟩
      | some client =>
          obtain ⟨_, owned⟩ := parseClient_isOk.mpr (owned client rfl)
          exact ⟨_, parseFields_ok.mpr (.owned named addressed sized arrived owned)⟩
    obtain ⟨tx, run⟩ := parses
    have row := (accepts tx).mp ((parseLine_ok read).mpr run)
    have ends := mt comma.mpr (row_getLast? row)
    rw [withoutEmptyEnd_row row] at fields
    rw [fields] at row
    cases client with
    | none =>
        cases row with
        | anonymous _ addressed sized arrived =>
            exact ⟨ends, ⟨_, arrived⟩, ⟨_, addressed⟩, ⟨_, sized⟩, fun c mem => by cases mem⟩
    | some client =>
        cases row with
        | owned _ addressed sized arrived owned =>
            refine ⟨ends, ⟨_, arrived⟩, ⟨_, addressed⟩, ⟨_, sized⟩, fun c mem => ?_⟩
            cases mem
            exact ⟨_, owned⟩
  · intro tidy
    have accepts : ∀ tx, parseLine id line = .ok (some tx) ↔ TraceRow id (line.splitOn ',') tx := by
      intro tx
      rw [parseLine_ok read]
      constructor
      · intro run
        have row := parseFields_ok.mp run
        generalize fields : withoutEmptyEnd (line.splitOn ',') = found at row
        have whole : line.getLast? ≠ some ',' → line.splitOn ',' = found := fun ends =>
          (if_neg (mt comma.mp ends)).symm.trans fields
        cases row with
        | anonymous named addressed sized arrived =>
            obtain ⟨ends, ⟨_, arrival⟩, ⟨_, address⟩, ⟨_, size⟩, -⟩ := tidy _ _ _ _ none fields
              ⟨_, named⟩ (parseU64_isOk.mp ⟨_, arrived⟩) (parseU64_isOk.mp ⟨_, addressed⟩)
              (parseU64_isOk.mp ⟨_, sized⟩) fun c mem => by cases mem
            rw [whole ends]
            exact .anonymous named (address.of_parse addressed) (size.of_parse sized)
              (arrival.of_parse arrived)
        | owned named addressed sized arrived owned =>
            obtain ⟨ends, ⟨_, arrival⟩, ⟨_, address⟩, ⟨_, size⟩, client⟩ := tidy _ _ _ _ (some _)
              fields ⟨_, named⟩ (parseU64_isOk.mp ⟨_, arrived⟩) (parseU64_isOk.mp ⟨_, addressed⟩)
              (parseU64_isOk.mp ⟨_, sized⟩) fun c mem => by
                cases mem
                exact parseClient_isOk.mp ⟨_, owned⟩
            obtain ⟨_, client⟩ := client _ rfl
            rw [whole ends]
            refine .owned named (address.of_parse addressed) (size.of_parse sized)
              (arrival.of_parse arrived) ?_
            rw [parseClient_exactly client] at owned
            cases owned
            exact client
      · intro row
        rw [withoutEmptyEnd_row row]
        exact parseFields_row row
    refine ⟨accepts, fun none => ?_⟩
    cases run : parseLine id line with
    | error e => exact ⟨e, rfl⟩
    | ok parsed =>
        cases parsed with
        | some tx => exact absurd ((accepts tx).mp run) (none tx)
        | none =>
            unfold parseLine at run
            rw [read] at run
            obtain ⟨_, _, same⟩ := map_eq_ok.mp run
            cases same

end

/-- A row with a hexadecimal address and an octal client is parsed exactly. -/
theorem parsed_exactly_hexadecimal :
    ParsedExactly 1 "5,READ,0x40,64,017".toList ∧
      parseLine 1 "5,READ,0x40,64,017".toList = .ok (some
        { id := 1, op := .read, address := 64, sizeBytes := 64, arrivalTime := 5,
          client := 15 }) := by
  have tidy : Tidy "5,READ,0x40,64,017".toList := by
    intro arrival op address size client fields _ _ _ _ _
    have same : withoutEmptyEnd ("5,READ,0x40,64,017".toList.splitOn ',') =
      ["5".toList, "READ".toList, "0x40".toList, "64".toList, "017".toList] := by decide
    rw [same] at fields
    cases client with
    | none => cases fields
    | some client =>
        cases fields
        refine ⟨by decide, ⟨5, readNumeral_eq_some.mp (by decide), by decide⟩,
          ⟨64, readNumeral_eq_some.mp (by decide), by decide⟩,
          ⟨64, readNumeral_eq_some.mp (by decide), by decide⟩, fun c mem => ?_⟩
        cases mem
        exact ⟨15, readNumeral_eq_some.mp (by decide), by decide⟩
  exact ⟨(parsed_exactly_iff (by decide)).mpr tidy, by decide⟩

/-- A number is taken with characters behind it. -/
theorem parsed_loosely : ¬ ∀ (id : Nat) (line : List Char), isSkipped line = false →
    ParsedExactly id line := by
  intro claim
  have row := ((claim 1 "0,READ,0,64x".toList (by decide)).accepts
    { id := 1, op := .read, address := 0, sizeBytes := 64, arrivalTime := 0 }).mp (by decide)
  have same : "0,READ,0,64x".toList.splitOn ',' =
      ["0".toList, "READ".toList, "0".toList, "64x".toList] := by decide
  rw [same] at row
  cases row with
  | anonymous _ _ sized =>
      have read := readNumeral_eq_some.mpr sized.1
      rw [show readNumeral "64x".toList = some (64, "x".toList) by decide] at read
      cases read

end HbmSim
