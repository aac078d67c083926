import Mathlib.Algebra.Ring.Nat
import Mathlib.Data.Nat.Bitwise

/-!
Fields scattered over the bits of a number.

A field is the list of its bit positions, the lowest first. Reading consecutive positions
is a shift and a mask; leaving a bit out of a number moves the positions above it down by
one.
-/

namespace HbmSim.Lib.BitFields

/-- The number whose bits are those of `n` at the positions. -/
def read : List Nat → Nat → Nat
  | [], _ => 0
  | bit :: bits, n => (n.testBit bit).toNat + 2 * read bits n

/-- The number without its bit `k`. -/
def elide (k n : Nat) : Nat := (n &&& (2 ^ k - 1)) ||| ((n >>> (k + 1)) <<< k)

variable {bits : List Nat} {bit first k n low : Nat}

theorem mask (n shift width : Nat) :
    (n >>> shift) &&& (2 ^ width - 1) = n / 2 ^ shift % 2 ^ width := by
  rw [Nat.and_two_pow_sub_one_eq_mod, Nat.shiftRight_eq_div_pow]

/-- An `or` of disjoint parts is a sum. -/
theorem or_shiftLeft (below : low < 2 ^ k) (high : Nat) :
    low ||| (high <<< k) = low + high * 2 ^ k := by
  rw [Nat.or_comm, ← Nat.shiftLeft_add_eq_or_of_lt below, Nat.shiftLeft_eq, Nat.add_comm]

theorem read_range (n first width : Nat) :
    read (List.range' first width) n = n / 2 ^ first % 2 ^ width := by
  induction width generalizing first with
  | zero => simp [read, Nat.mod_one]
  | succ width ih =>
    have lowest : (n.testBit first).toNat = n / 2 ^ first % 2 := Nat.toNat_testBit n first
    rw [List.range'_succ, read, ih, lowest, Nat.pow_succ 2 first, ← Nat.div_div_eq_div_mul,
      Nat.pow_succ 2 width, Nat.mul_comm (2 ^ width), Nat.mod_mul]

/-! ### Leaving a bit out -/

theorem testBit_elide_below (below : bit < k) : (elide k n).testBit bit = n.testBit bit := by
  unfold elide
  simp [Nat.testBit_or, Nat.testBit_shiftLeft, below]

theorem testBit_elide_above (above : k ≤ bit) :
    (elide k n).testBit bit = n.testBit (bit + 1) := by
  have position : k + 1 + (bit - k) = bit + 1 := by omega
  unfold elide
  simp [Nat.testBit_or, Nat.testBit_shiftLeft, Nat.testBit_shiftRight, above,
    Nat.not_lt.mpr above, position]

theorem read_elide_below (below : ∀ bit ∈ bits, bit < k) : read bits (elide k n) = read bits n := by
  induction bits with
  | nil => rfl
  | cons bit bits ih =>
    rw [List.forall_mem_cons] at below
    rw [read, read, ih below.2, testBit_elide_below below.1]

/-- A field above the bit left out is read one position further down. -/
theorem read_elide_above (above : ∀ bit ∈ bits, k < bit) :
    read (bits.map (· - 1)) (elide k n) = read bits n := by
  induction bits with
  | nil => rfl
  | cons bit bits ih =>
    rw [List.forall_mem_cons] at above
    have position : bit - 1 + 1 = bit := by omega
    have shifted : (elide k n).testBit (bit - 1) = n.testBit bit := by
      rw [testBit_elide_above (by omega), position]
    rw [List.map_cons, read, read, ih above.2, shifted]

end HbmSim.Lib.BitFields
