import HbmSim.Lib.Exits

/-!
Programs that keep two states in step.

A program keeps a relation in step if, run from related states, it returns the same value or
throws the same exception from both and leaves related states. What the relation leaves open
has then no influence on the program, and what it fixes in the second state stays as it is.
-/

namespace HbmSim.Lib

variable {ε σ α β : Type} {R : σ → σ → Prop}

/-- Two runs have ended in the same way, in related states. -/
inductive Alike (R : σ → σ → Prop) : EStateM.Result ε σ α → EStateM.Result ε σ α → Prop
  | ok {a : α} {s t : σ} (states : R s t) : Alike R (.ok a s) (.ok a t)
  | error {e : ε} {s t : σ} (states : R s t) : Alike R (.error e s) (.error e t)

/-- From related states `x` does the same. -/
def Lockstep (R : σ → σ → Prop) (x : EStateM ε σ α) : Prop := ∀ s t, R s t → Alike R (x s) (x t)

namespace Lockstep

theorem pure (a : α) : Lockstep R (Pure.pure a : EStateM ε σ α) := fun _ _ states => .ok states

theorem throw (e : ε) : Lockstep R (MonadExcept.throw e : EStateM ε σ α) :=
  fun _ _ states => .error states

theorem ofExcept (r : Except ε α) : Lockstep R (MonadExcept.ofExcept r : EStateM ε σ α) := by
  cases r with
  | ok a => exact pure a
  | error e => exact throw e

theorem modify {h : σ → σ} (keeps : ∀ s t, R s t → R (h s) (h t)) :
    Lockstep R (modify h : EStateM ε σ PUnit) := fun s t states => .ok (keeps s t states)

/-- What follows a read must not see the difference. -/
theorem getBind {k : σ → EStateM ε σ α} (reads : ∀ s t, R s t → k s = k t)
    (rest : ∀ s, Lockstep R (k s)) : Lockstep R (MonadState.get >>= k) := by
  intro s t states
  show Alike R (k s s) (k t t)
  rw [← reads s t states]
  exact rest s s t states

theorem bind {x : EStateM ε σ α} {h : α → EStateM ε σ β} (first : Lockstep R x)
    (rest : ∀ a, Lockstep R (h a)) : Lockstep R (x >>= h) := by
  intro s t states
  have both := first s t states
  show Alike R (EStateM.bind x h s) (EStateM.bind x h t)
  unfold EStateM.bind
  generalize x s = left at both ⊢
  generalize x t = right at both ⊢
  cases both with
  | ok states => exact rest _ _ _ states
  | error states => exact .error states

theorem ite {p : Prop} {_ : Decidable p} {x y : EStateM ε σ α} (yes : p → Lockstep R x)
    (no : ¬ p → Lockstep R y) : Lockstep R (if p then x else y) := by
  split
  · exact yes ‹_›
  · exact no ‹_›

end Lockstep

end HbmSim.Lib
