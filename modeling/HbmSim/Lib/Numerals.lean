import Mathlib.Data.List.TakeWhile
import Mathlib.Tactic.IntervalCases

/-!
Numerals of any base.

A text can begin with a decimal, an octal or a hexadecimal numeral, told apart by their first
characters. `Numeral` is the grammar of these beginnings, with the longest numeral there is, and
`readNumeral` reads them. The digits of a number are a numeral of its value.
-/

namespace HbmSim.Lib

/-- The value of a digit, where the letters go on after `9`. -/
def digitValue (c : Char) : Option Nat :=
  if '0' ≤ c ∧ c ≤ '9' then some (c.toNat - '0'.toNat)
  else if 'a' ≤ c ∧ c ≤ 'z' then some (c.toNat - 'a'.toNat + 10)
  else if 'A' ≤ c ∧ c ≤ 'Z' then some (c.toNat - 'A'.toNat + 10)
  else none

def isDigit (base : Nat) (c : Char) : Bool := (digitValue c).any fun d => decide (d < base)

def digitsValue (base : Nat) (digits : List Char) : Nat :=
  digits.foldl (fun n c => n * base + (digitValue c).getD 0) 0

/-- No digit comes next. -/
def Stops (base : Nat) (rest : List Char) : Prop := ∀ c ∈ rest.head?, isDigit base c = false

/-- Behind its zero the text goes on like a hexadecimal numeral. -/
def hexMarked : List Char → Bool
  | x :: d :: _ => (x == 'x' || x == 'X') && isDigit 16 d
  | _ => false

/-- The text begins with a numeral of some value, and the rest comes after it. -/
inductive Numeral : List Char → Nat → List Char → Prop
  | decimal {c : Char} {digits rest : List Char} (first : isDigit 10 c = true) (lead : c ≠ '0')
      (all : ∀ d ∈ digits, isDigit 10 d = true) (stops : Stops 10 rest) :
      Numeral (c :: (digits ++ rest)) (digitsValue 10 (c :: digits)) rest
  | octal {digits rest : List Char} (plain : hexMarked (digits ++ rest) = false)
      (all : ∀ d ∈ digits, isDigit 8 d = true) (stops : Stops 8 rest) :
      Numeral ('0' :: (digits ++ rest)) (digitsValue 8 digits) rest
  | hexadecimal {x : Char} {digits rest : List Char}
      (marked : hexMarked (x :: (digits ++ rest)) = true)
      (all : ∀ d ∈ digits, isDigit 16 d = true) (stops : Stops 16 rest) :
      Numeral ('0' :: x :: (digits ++ rest)) (digitsValue 16 digits) rest

/-- The value of the leading digits, and what comes after them. -/
def readDigits (base : Nat) (text : List Char) : Nat × List Char :=
  (digitsValue base (text.takeWhile (isDigit base)), text.dropWhile (isDigit base))

/-- The numeral a text begins with, and what comes after it. -/
def readNumeral : List Char → Option (Nat × List Char)
  | [] => none
  | c :: text =>
      if c = '0' then
        if hexMarked text then some (readDigits 16 text.tail) else some (readDigits 8 text)
      else if isDigit 10 c then some (readDigits 10 (c :: text))
      else none

theorem stops_iff {base : Nat} {rest : List Char} :
    Stops base rest ↔ rest.dropWhile (isDigit base) = rest ∧
      rest.takeWhile (isDigit base) = [] := by
  cases rest with
  | nil => exact ⟨fun _ => ⟨rfl, rfl⟩, fun _ c first => by cases first⟩
  | cons c rest =>
      constructor
      · intro stops
        have other : ¬ isDigit base c = true := Bool.eq_false_iff.mp (stops c rfl)
        exact ⟨List.dropWhile_cons_of_neg other, List.takeWhile_cons_of_neg other⟩
      · rintro ⟨-, none⟩ d first
        cases first
        refine Bool.eq_false_iff.mpr fun digit => ?_
        rw [List.takeWhile_cons_of_pos digit] at none
        cases none

/-- A text is its leading digits and what comes after them. -/
theorem exists_digits (base : Nat) (text : List Char) :
    ∃ digits rest, text = digits ++ rest ∧ (∀ d ∈ digits, isDigit base d = true) ∧
      Stops base rest := by
  refine ⟨_, _, List.takeWhile_append_dropWhile.symm, fun _ mem => List.mem_takeWhile_imp mem, ?_⟩
  intro c first
  have stops := List.head?_dropWhile_not (isDigit base) text
  rw [Option.mem_def.mp first] at stops
  exact stops

/-- Digits up to the first other character are the leading digits. -/
theorem readDigits_append {base : Nat} {digits rest : List Char}
    (all : ∀ d ∈ digits, isDigit base d = true) (stops : Stops base rest) :
    readDigits base (digits ++ rest) = (digitsValue base digits, rest) := by
  obtain ⟨kept, none⟩ := stops_iff.mp stops
  unfold readDigits
  rw [List.takeWhile_append_of_pos all, List.dropWhile_append_of_pos all, kept, none,
    List.append_nil]

theorem readNumeral_cons (c : Char) (text : List Char) :
    readNumeral (c :: text) =
      if c = '0' then
        if hexMarked text then some (readDigits 16 text.tail) else some (readDigits 8 text)
      else if isDigit 10 c then some (readDigits 10 (c :: text))
      else none := rfl

/-- The reader accepts exactly the grammar. -/
theorem readNumeral_eq_some {text rest : List Char} {n : Nat} :
    readNumeral text = some (n, rest) ↔ Numeral text n rest := by
  constructor
  · intro run
    cases text with
    | nil => cases run
    | cons c text =>
        rw [readNumeral_cons] at run
        split at run
        · rename_i zero
          subst zero
          split at run
          · rename_i marked
            cases text with
            | nil => cases marked
            | cons x text =>
                obtain ⟨digits, tail, rfl, all, stops⟩ := exists_digits 16 text
                rw [List.tail_cons, readDigits_append all stops] at run
                cases run
                exact .hexadecimal marked all stops
          · rename_i plain
            obtain ⟨digits, tail, rfl, all, stops⟩ := exists_digits 8 text
            rw [readDigits_append all stops] at run
            cases run
            exact .octal (Bool.eq_false_iff.mpr plain) all stops
        · rename_i lead
          split at run
          · rename_i first
            obtain ⟨digits, tail, rfl, all, stops⟩ := exists_digits 10 text
            rw [← List.cons_append, readDigits_append (List.forall_mem_cons.mpr ⟨first, all⟩) stops]
              at run
            cases run
            exact .decimal first lead all stops
          · cases run
  · intro numeral
    cases numeral with
    | decimal first lead all stops =>
        rw [readNumeral_cons, if_neg lead, if_pos first, ← List.cons_append,
          readDigits_append (List.forall_mem_cons.mpr ⟨first, all⟩) stops]
    | octal plain all stops =>
        rw [readNumeral_cons, if_pos rfl, if_neg (Bool.eq_false_iff.mp plain),
          readDigits_append all stops]
    | hexadecimal marked all stops =>
        rw [readNumeral_cons, if_pos rfl, if_pos marked, List.tail_cons,
          readDigits_append all stops]

/-- A numeral begins with a decimal digit. -/
theorem Numeral.first_digit {text rest : List Char} {n : Nat} (h : Numeral text n rest) :
    ∃ c tail, text = c :: tail ∧ isDigit 10 c = true := by
  cases h with
  | decimal first => exact ⟨_, _, rfl, first⟩
  | octal => exact ⟨_, _, rfl, by decide⟩
  | hexadecimal => exact ⟨_, _, rfl, by decide⟩

/-! ### Writing numerals -/

theorem digitValue_digitChar {d : Nat} (small : d < 16) : digitValue d.digitChar = some d := by
  interval_cases d <;> rfl

theorem isDigit_digitChar {base d : Nat} (low : d < base) (small : base ≤ 16) :
    isDigit base d.digitChar = true := by
  unfold isDigit
  rw [digitValue_digitChar (Nat.lt_of_lt_of_le low small)]
  exact decide_eq_true low

theorem digitsValue_append (base : Nat) (digits : List Char) (c : Char) :
    digitsValue base (digits ++ [c]) =
      digitsValue base digits * base + (digitValue c).getD 0 := by
  unfold digitsValue
  rw [List.foldl_append]
  rfl

/-- What is written for a number. -/
structure Written (base n : Nat) (digits : List Char) : Prop where
  value : digitsValue base digits = n
  all : ∀ c ∈ digits, isDigit base c = true
  lead : n ≠ 0 → ∃ c rest, digits = c :: rest ∧ c ≠ '0'

theorem written_toDigits {base : Nat} (two : 2 ≤ base) (small : base ≤ 16) (n : Nat) :
    Written base n (Nat.toDigits base n) := by
  induction n using Nat.strong_induction_on with
  | _ n ih =>
      rw [Nat.toDigits_eq_if two]
      split
      · rename_i low
        have digit := Nat.lt_of_lt_of_le low small
        refine ⟨?_, ?_, fun some => ⟨n.digitChar, [], rfl, ?_⟩⟩
        · show 0 * base + (digitValue n.digitChar).getD 0 = n
          rw [digitValue_digitChar digit]
          simp
        · intro c hc
          rw [List.mem_singleton.mp hc]
          exact isDigit_digitChar low small
        · intro zero
          have value := digitValue_digitChar digit
          rw [zero] at value
          exact some (Option.some.inj value).symm
      · rename_i high
        have fewer : n / base < n := Nat.div_lt_self (by omega) two
        have before := ih _ fewer
        have digit : n % base < base := Nat.mod_lt n (by omega)
        refine ⟨?_, ?_, fun _ => ?_⟩
        · rw [digitsValue_append, before.value,
            digitValue_digitChar (Nat.lt_of_lt_of_le digit small), Option.getD_some]
          exact Nat.div_add_mod' n base
        · intro c hc
          rcases List.mem_append.mp hc with hc | hc
          · exact before.all c hc
          · rw [List.mem_singleton.mp hc]
            exact isDigit_digitChar digit small
        · have positive : n / base ≠ 0 := (Nat.div_pos (by omega) (by omega)).ne'
          obtain ⟨c, rest, same, other⟩ := before.lead positive
          exact ⟨c, rest ++ [(n % base).digitChar], by rw [same]; rfl, other⟩

/-- The decimal digits of a number are a numeral. -/
theorem numeral_decimal (n : Nat) : Numeral (Nat.toDigits 10 n) n [] := by
  have written := written_toDigits (show 2 ≤ 10 by decide) (by decide) n
  by_cases zero : n = 0
  · subst zero
    exact @Numeral.octal [] [] rfl nofun nofun
  · obtain ⟨c, rest, same, lead⟩ := written.lead zero
    have all := written.all
    have value := written.value
    rw [same] at all value ⊢
    obtain ⟨first, others⟩ := List.forall_mem_cons.mp all
    have numeral := @Numeral.decimal c rest [] first lead others nofun
    rwa [List.append_nil, value] at numeral

/-- The hexadecimal digits of a number are a numeral behind `0x`. -/
theorem numeral_hexadecimal (n : Nat) : Numeral ('0' :: 'x' :: Nat.toDigits 16 n) n [] := by
  have written := written_toDigits (show 2 ≤ 16 by decide) (Nat.le_refl _) n
  have all := written.all
  have value := written.value
  obtain ⟨c, rest, same⟩ := List.exists_cons_of_ne_nil (Nat.toDigits_ne_nil (n := n) (b := 16))
  rw [same] at all value ⊢
  have marked : hexMarked ('x' :: ((c :: rest) ++ [])) = true := all c List.mem_cons_self
  have numeral := Numeral.hexadecimal marked all (by nofun : Stops 16 [])
  rwa [List.append_nil, value] at numeral

end HbmSim.Lib
