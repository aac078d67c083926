import Mathlib.Algebra.Ring.Nat
import Mathlib.Algebra.BigOperators.Group.Finset.Piecewise
import Mathlib.Algebra.Order.BigOperators.Group.Finset

/-!
Sums over the first numbers that change at one place, and of the parts of a list.
-/

namespace HbmSim.Lib

variable {f g : Nat → Nat} {n k : Nat}

/-- A sum one of whose terms changes while the others do not grow. -/
theorem sum_range_replace_le (hk : k < n) (others : ∀ i < n, i ≠ k → g i ≤ f i) :
    ∑ i ∈ Finset.range n, g i + f k ≤ ∑ i ∈ Finset.range n, f i + g k := by
  have here : k ∈ Finset.range n := Finset.mem_range.mpr hk
  have rest : ∑ i ∈ (Finset.range n).erase k, g i ≤ ∑ i ∈ (Finset.range n).erase k, f i := by
    apply Finset.sum_le_sum
    intro i hi
    obtain ⟨apart, hi⟩ := Finset.mem_erase.mp hi
    exact others i (Finset.mem_range.mp hi) apart
  rw [← Finset.add_sum_erase _ g here, ← Finset.add_sum_erase _ f here]
  omega

/-- A sum one of whose terms changes while the others stay. -/
theorem sum_range_replace (hk : k < n) (others : ∀ i < n, i ≠ k → g i = f i) :
    ∑ i ∈ Finset.range n, g i + f k = ∑ i ∈ Finset.range n, f i + g k := by
  apply Nat.le_antisymm
  · exact sum_range_replace_le hk fun i hi apart => Nat.le_of_eq (others i hi apart)
  · exact sum_range_replace_le hk fun i hi apart => Nat.le_of_eq (others i hi apart).symm

/-- The elements of a list, counted by a number of theirs. -/
theorem sum_range_filter {α : Type} (xs : List α) (key weight : α → Nat)
    (inside : ∀ x ∈ xs, key x < n) :
    ∑ i ∈ Finset.range n, ((xs.filter fun x => key x = i).map weight).sum =
      (xs.map weight).sum := by
  induction xs with
  | nil => exact Finset.sum_const_zero
  | cons x rest ih =>
      have here : ∀ i, (((x :: rest).filter fun x => key x = i).map weight).sum =
          (if key x = i then weight x else 0) +
            ((rest.filter fun x => key x = i).map weight).sum := by
        intro i
        by_cases same : key x = i
        · simp only [List.filter_cons, same, decide_true, if_true, List.map_cons, List.sum_cons]
        · simp only [List.filter_cons, same, decide_false, if_false, Nat.zero_add,
            Bool.false_eq_true]
      have one : ∑ i ∈ Finset.range n, (if key x = i then weight x else 0) = weight x := by
        have mem := Finset.mem_range.mpr (inside x List.mem_cons_self)
        rw [Finset.sum_ite_eq, if_pos mem]
      have others := ih fun y hy => inside y (List.mem_cons_of_mem x hy)
      rw [Finset.sum_congr rfl fun i _ => here i, Finset.sum_add_distrib, one, others,
        List.map_cons, List.sum_cons]

end HbmSim.Lib
