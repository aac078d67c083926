import HbmSim.Lib.Numerals
import HbmSim.Lib.Throw
import HbmSim.Types

/-!
The trace lines of the command line program.

A line is the list of its bytes, each as the character with its code. `std::stoull` with base 0
accepts what C++20 says it does: blanks, a sign, and the longest numeral there is.
-/

namespace HbmSim

open HbmSim.Lib

/-- What stops a replay: an exception of the library, or a `std::runtime_error` of `main`. -/
inductive ReplayError where
  | thrown (e : HbmError)
  | runtimeError (what : String)
deriving DecidableEq, Repr

/-- The `std::getline` loop of `split_csv`, with what the current call has extracted. A call
that extracts nothing fails, so there is no empty field at the end. -/
def splitFrom (field : List Char) : List Char → List (List Char)
  | [] => if field = [] then [] else [field]
  | c :: stream => if c = ',' then field :: splitFrom [] stream else splitFrom (field ++ [c]) stream

def splitCsv (line : List Char) : List (List Char) := splitFrom [] line

/-- `std::isspace` of the C locale. -/
def isSpace (c : Char) : Bool :=
  c == ' ' || (decide ('\t' ≤ c) && decide (c ≤ '\r'))

/-- The optional sign of a numeral: whether it is a minus, and what comes after it. -/
def readSign : List Char → Bool × List Char
  | '+' :: text => (false, text)
  | '-' :: text => (true, text)
  | text => (false, text)

/-- `std::stoull(text, &consumed, 0)`: the value and `consumed`. -/
def stoull (text : List Char) : Except HbmError (Nat × Nat) :=
  let (negative, digits) := readSign (text.dropWhile isSpace)
  match readNumeral digits with
  | none => .error (.invalidArgument "stoull")
  | some (n, rest) =>
      if 2 ^ 64 ≤ n then .error (.outOfRange "stoull")
      else .ok (if negative then (2 ^ 64 - n) % 2 ^ 64 else n, text.length - rest.length)

/-- `consumed` is not looked at. -/
def parseU64 (value : List Char) : Except HbmError Nat := do
  let (n, _) ← stoull value
  return n

def parseOp (field : List Char) : Except ReplayError HbmOp :=
  if field = "READ".toList ∨ field = "read".toList then .ok .read
  else if field = "WRITE".toList ∨ field = "write".toList then .ok .write
  else .error (.runtimeError "op must be READ or WRITE")

/-- The cast of the client to 32 bits, or 0 without a fifth column. -/
def parseClient : Option (List Char) → Except ReplayError Nat
  | none => .ok 0
  | some client => u32 <$> (parseU64 client).mapError .thrown

/-- The transaction of a row, its fields read in the order of the initialiser. -/
def parseRow (id : Nat) (arrival op address size : List Char) (client : Option (List Char)) :
    Except ReplayError HbmTransaction := do
  let op ← parseOp op
  let address ← (parseU64 address).mapError .thrown
  let size ← (parseU64 size).mapError .thrown
  let arrival ← (parseU64 arrival).mapError .thrown
  let client ← parseClient client
  return { id, op, address, sizeBytes := size, arrivalTime := arrival, client }

def parseFields (id : Nat) : List (List Char) → Except ReplayError HbmTransaction
  | [arrival, op, address, size] => parseRow id arrival op address size none
  | [arrival, op, address, size, client] => parseRow id arrival op address size (some client)
  | _ => .error (.runtimeError "expected 4 or 5 CSV columns")

/-- The empty lines and the comments. -/
def isSkipped (line : List Char) : Bool := line.isEmpty || line.head? == some '#'

/-- The transaction a line of the trace becomes, unless it is skipped. -/
def parseLine (id : Nat) (line : List Char) : Except ReplayError (Option HbmTransaction) :=
  if isSkipped line then return none
  else some <$> parseFields id (splitCsv line)

/-! ### What is read -/

/-- The field is a numeral below a bound and nothing else. -/
def Exactly (bound : Nat) (field : List Char) (n : Nat) : Prop := Numeral field n [] ∧ n < bound

/-- The field begins with a numeral of 64 bits, after blanks and a sign. -/
structure Readable (field : List Char) : Prop where
  read : ∃ blanks sign digits n rest, field = blanks ++ (sign ++ digits) ∧
    (∀ c ∈ blanks, isSpace c = true) ∧ sign ∈ [[], ['+'], ['-']] ∧ Numeral digits n rest ∧
      n < 2 ^ 64

theorem decimal_range {c : Char} (h : isDigit 10 c = true) : '0' ≤ c ∧ c ≤ '9' := by
  unfold isDigit digitValue at h
  split at h
  · assumption
  · split at h
    · simp only [Option.any_some, decide_eq_true_eq] at h
      omega
    · split at h
      · simp only [Option.any_some, decide_eq_true_eq] at h
        omega
      · cases h

theorem isSpace_decimal {c : Char} (h : isDigit 10 c = true) : isSpace c = false := by
  obtain ⟨low, -⟩ := decimal_range h
  refine Bool.eq_false_iff.mpr fun space => ?_
  rcases Bool.or_eq_true _ _ |>.mp space with blank | control
  · rw [eq_of_beq blank] at low
    exact absurd low (by decide)
  · exact absurd (Char.le_trans low (of_decide_eq_true (Bool.and_eq_true _ _ |>.mp control).2))
      (by decide)

theorem readSign_decimal {c : Char} (h : isDigit 10 c = true) (text : List Char) :
    readSign (c :: text) = (false, c :: text) := by
  unfold readSign
  split
  · rename_i same
    cases same
    exact absurd h (by decide)
  · rename_i same
    cases same
    exact absurd h (by decide)
  · rfl

/-- The sign comes off in front of a numeral. -/
theorem readSign_numeral {sign digits rest : List Char} {n : Nat}
    (one : sign ∈ [[], ['+'], ['-']]) (numeral : Numeral digits n rest) :
    (readSign (sign ++ digits)).2 = digits := by
  obtain ⟨c, text, rfl, digit⟩ := numeral.first_digit
  simp only [List.mem_cons, List.not_mem_nil, or_false] at one
  rcases one with rfl | rfl | rfl
  · rw [List.nil_append, readSign_decimal digit]
  · rfl
  · rfl

theorem dropWhile_isSpace {blanks sign digits rest : List Char} {n : Nat}
    (all : ∀ c ∈ blanks, isSpace c = true) (one : sign ∈ [[], ['+'], ['-']])
    (numeral : Numeral digits n rest) :
    (blanks ++ (sign ++ digits)).dropWhile isSpace = sign ++ digits := by
  obtain ⟨c, text, rfl, digit⟩ := numeral.first_digit
  rw [List.dropWhile_append_of_pos all]
  simp only [List.mem_cons, List.not_mem_nil, or_false] at one
  rcases one with rfl | rfl | rfl
  · exact List.dropWhile_cons_of_neg (Bool.eq_false_iff.mp (isSpace_decimal digit))
  · rfl
  · rfl

theorem stoull_eq {text digits rest : List Char} {n : Nat}
    (signed : (readSign (text.dropWhile isSpace)).2 = digits) (numeral : Numeral digits n rest) :
    stoull text =
      if 2 ^ 64 ≤ n then .error (.outOfRange "stoull")
      else .ok (if (readSign (text.dropWhile isSpace)).1 then (2 ^ 64 - n) % 2 ^ 64 else n,
        text.length - rest.length) := by
  unfold stoull
  rw [← signed] at numeral
  dsimp only
  rw [readNumeral_eq_some.mpr numeral]

/-- A number field is accepted if and only if it begins with a numeral. -/
theorem parseU64_isOk {field : List Char} : (∃ n, parseU64 field = .ok n) ↔ Readable field := by
  constructor
  · rintro ⟨m, run⟩
    have parts : ∃ sign, sign ∈ [[], ['+'], ['-']] ∧
        field.dropWhile isSpace = sign ++ (readSign (field.dropWhile isSpace)).2 := by
      unfold readSign
      split
      · exact ⟨['+'], by simp, by assumption⟩
      · exact ⟨['-'], by simp, by assumption⟩
      · exact ⟨[], by simp, rfl⟩
    obtain ⟨sign, one, split⟩ := parts
    cases found : readNumeral (readSign (field.dropWhile isSpace)).2 with
    | none =>
        unfold parseU64 stoull at run
        dsimp only at run
        rw [found] at run
        cases run
    | some read =>
        obtain ⟨n, rest⟩ := read
        have numeral := readNumeral_eq_some.mp found
        unfold parseU64 at run
        rw [stoull_eq rfl numeral] at run
        refine ⟨field.takeWhile isSpace, sign, _, n, rest, ?_, ?_, one, numeral, ?_⟩
        · rw [← split, List.takeWhile_append_dropWhile]
        · exact fun _ mem => List.mem_takeWhile_imp mem
        · refine Nat.lt_of_not_le fun large => ?_
          rw [if_pos large] at run
          cases run
  · rintro ⟨blanks, sign, digits, n, rest, rfl, all, one, numeral, bound⟩
    have signed : (readSign ((blanks ++ (sign ++ digits)).dropWhile isSpace)).2 = digits := by
      rw [dropWhile_isSpace all one numeral]
      exact readSign_numeral one numeral
    unfold parseU64
    rw [stoull_eq signed numeral, if_neg (Nat.not_le.mpr bound)]
    exact ⟨_, rfl⟩

/-- A field that is a numeral is read as its value. -/
theorem parseU64_exactly {field : List Char} {n : Nat} (h : Exactly (2 ^ 64) field n) :
    parseU64 field = .ok n := by
  obtain ⟨numeral, bound⟩ := h
  obtain ⟨c, text, rfl, digit⟩ := numeral.first_digit
  have stripped : (c :: text).dropWhile isSpace = c :: text :=
    List.dropWhile_cons_of_neg (Bool.eq_false_iff.mp (isSpace_decimal digit))
  have unsigned : readSign ((c :: text).dropWhile isSpace) = (false, c :: text) := by
    rw [stripped, readSign_decimal digit]
  unfold parseU64
  rw [stoull_eq (congrArg Prod.snd unsigned) numeral, if_neg (Nat.not_le.mpr bound), unsigned]
  rfl

end HbmSim
