import Mathlib.Data.List.Basic

/-!
Intervals that follow each other.

A list of non-empty intervals tiles a range of numbers if each starts where the one before
it ends. Such a list covers the range exactly, and no two of its intervals meet.
-/

namespace HbmSim.Lib

variable {α : Type} {first size : α → Nat}

/-- The intervals tile the numbers from `a` up to `b`. -/
inductive Tiles (first size : α → Nat) : Nat → List α → Nat → Prop where
  | nil {a : Nat} : Tiles first size a [] a
  | cons {a b : Nat} {x : α} {rest : List α} :
      first x = a → 0 < size x → Tiles first size (a + size x) rest b →
      Tiles first size a (x :: rest) b

namespace Tiles

/-- The number lies in the interval. -/
def Holds (first size : α → Nat) (n : Nat) (x : α) : Prop := first x ≤ n ∧ n < first x + size x

theorem le {a b : Nat} {xs : List α} (h : Tiles first size a xs b) : a ≤ b := by
  induction h with
  | nil => exact Nat.le_refl _
  | cons _ _ _ ih => exact Nat.le_of_add_right_le ih

theorem positive {a b : Nat} {xs : List α} (h : Tiles first size a xs b) :
    ∀ x ∈ xs, 0 < size x := by
  induction h with
  | nil => simp
  | cons _ positive _ ih => exact List.forall_mem_cons.mpr ⟨positive, ih⟩

theorem within {a b : Nat} {xs : List α} (h : Tiles first size a xs b) :
    ∀ x ∈ xs, a ≤ first x ∧ first x + size x ≤ b := by
  induction h with
  | nil => simp
  | cons starts positive rest ih =>
      simp only [List.forall_mem_cons]
      refine ⟨⟨Nat.le_of_eq starts.symm, ?_⟩, fun x hx => ?_⟩
      · rw [starts]
        exact rest.le
      · obtain ⟨lower, upper⟩ := ih x hx
        exact ⟨Nat.le_of_add_right_le lower, upper⟩

theorem covers {a b : Nat} {xs : List α} (h : Tiles first size a xs b) {n : Nat} :
    (∃ x ∈ xs, Holds first size n x) ↔ a ≤ n ∧ n < b := by
  induction h with
  | nil =>
      simp only [List.not_mem_nil, false_and, exists_false, false_iff]
      omega
  | @cons a b x rest starts positive tiles ih =>
      have upto := tiles.le
      simp only [List.exists_mem_cons_iff, ih]
      unfold Holds
      omega

theorem apart {a b : Nat} {xs : List α} (h : Tiles first size a xs b) :
    xs.Pairwise fun x y => first x + size x ≤ first y := by
  induction h with
  | nil => exact .nil
  | cons starts positive rest ih =>
      refine List.pairwise_cons.mpr ⟨fun y hy => ?_, ih⟩
      rw [starts]
      exact (rest.within y hy).1

end Tiles

end HbmSim.Lib
