import Mathlib.Algebra.BigOperators.Group.List.Basic
import Mathlib.Algebra.Ring.Nat
import Mathlib.Data.List.Forall2

/-!
Numbers in a mixed radix.

The first base varies fastest. Below the product of the bases, numbers and lists of
digits within the bases are the same thing.
-/

namespace HbmSim.Lib.MixedRadix

/-- The digits of a number. -/
def digits : List Nat → Nat → List Nat
  | [], _ => []
  | base :: bases, n => n % base :: digits bases (n / base)

/-- The number of a list of digits. -/
def number : List Nat → List Nat → Nat
  | base :: bases, digit :: rest => digit + base * number bases rest
  | _, _ => 0

/-- Every digit is below its base. -/
abbrev Within (bases ds : List Nat) : Prop := List.Forall₂ (· < ·) ds bases

variable {bases ds : List Nat} {n m : Nat}

theorem number_digits (below : n < bases.prod) : number bases (digits bases n) = n := by
  induction bases generalizing n with
  | nil =>
      rw [List.prod_nil] at below
      exact (Nat.lt_one_iff.mp below).symm
  | cons base bases ih =>
      rw [List.prod_cons] at below
      have rest : n / base < bases.prod := Nat.div_lt_of_lt_mul below
      show n % base + base * number bases (digits bases (n / base)) = n
      rw [ih rest]
      exact Nat.mod_add_div n base

theorem digits_number (within : Within bases ds) : digits bases (number bases ds) = ds := by
  induction within with
  | nil => rfl
  | @cons digit base rest bases first _ ih =>
      show (digit + base * number bases rest) % base ::
        digits bases ((digit + base * number bases rest) / base) = digit :: rest
      have positive : 0 < base := Nat.lt_of_le_of_lt (Nat.zero_le _) first
      rw [Nat.add_mul_mod_self_left, Nat.mod_eq_of_lt first, Nat.add_mul_div_left _ _ positive,
        Nat.div_eq_of_lt first, Nat.zero_add, ih]

/-- Below the product of the bases no two numbers have the same digits. -/
theorem digits_injective (hn : n < bases.prod) (hm : m < bases.prod)
    (same : digits bases n = digits bases m) : n = m := by
  rw [← number_digits hn, ← number_digits hm, same]

end HbmSim.Lib.MixedRadix
