import HbmSim.Lib.Exits

/-!
Programs that mirror each other.

A map of states forgets some of what a program writes. A program mirrors another through the
map if running it where the map leads does what the other does, seen through the map: it
returns or throws as the other does, and leaves the image of the state the other leaves.
-/

namespace HbmSim.Lib

variable {ε σ τ α α' β β' : Type} {f : σ → τ}

/-- What a run does, seen through maps of states and values. -/
def imageOf (f : σ → τ) (g : α → α') : EStateM.Result ε σ α → EStateM.Result ε τ α'
  | .ok a s => .ok (g a) (f s)
  | .error e s => .error e (f s)

/-- `y` does at the image of a state what `x` does at the state. -/
def Mirrors (f : σ → τ) (g : α → α') (x : EStateM ε σ α) (y : EStateM ε τ α') : Prop :=
  ∀ s, y (f s) = imageOf f g (x s)

namespace Mirrors

theorem pure {g : α → α'} (a : α) :
    Mirrors f g (Pure.pure a : EStateM ε σ α) (Pure.pure (g a)) := fun _ => rfl

theorem throw {g : α → α'} (e : ε) :
    Mirrors f g (MonadExcept.throw e : EStateM ε σ α) (MonadExcept.throw e) := fun _ => rfl

theorem get : Mirrors f f (MonadState.get : EStateM ε σ σ) MonadState.get := fun _ => rfl

theorem modify {h : σ → σ} {h' : τ → τ} (same : ∀ s, h' (f s) = f (h s)) :
    Mirrors f id (modify h : EStateM ε σ PUnit) (modify h') := by
  intro s
  show EStateM.Result.ok PUnit.unit (h' (f s)) = .ok PUnit.unit (f (h s))
  rw [same]

theorem modifyGet {g : α → α'} {h : σ → α × σ} {h' : τ → α' × τ}
    (value : ∀ s, (h' (f s)).1 = g (h s).1) (state : ∀ s, (h' (f s)).2 = f (h s).2) :
    Mirrors f g (modifyGet h : EStateM ε σ α) (modifyGet h') := by
  intro s
  show EStateM.Result.ok (h' (f s)).1 (h' (f s)).2 = .ok (g (h s).1) (f (h s).2)
  rw [value, state]

theorem ofExcept {g : α → α'} {r : Except ε α} {r' : Except ε α'} (same : r' = g <$> r) :
    Mirrors f g (MonadExcept.ofExcept r : EStateM ε σ α) (MonadExcept.ofExcept r') := by
  subst same
  cases r <;> exact fun _ => rfl

/-- What comes after a call sees the image of what the call returns. -/
theorem bind {g : α → α'} {k : β → β'} {x : EStateM ε σ α} {x' : EStateM ε τ α'}
    {h : α → EStateM ε σ β} {h' : α' → EStateM ε τ β'} (first : Mirrors f g x x')
    (rest : ∀ a, Mirrors f k (h a) (h' (g a))) : Mirrors f k (x >>= h) (x' >>= h') := by
  intro s
  show EStateM.bind x' h' (f s) = imageOf f k (EStateM.bind x h s)
  unfold EStateM.bind
  rw [first s]
  cases x s with
  | ok a t => exact rest a t
  | error e t => rfl

theorem ite {g : α → α'} {p : Prop} {_ : Decidable p} {x y : EStateM ε σ α} {x' y' : EStateM ε τ α'}
    (yes : p → Mirrors f g x x') (no : ¬ p → Mirrors f g y y') :
    Mirrors f g (if p then x else y) (if p then x' else y') := by
  split
  · exact yes ‹_›
  · exact no ‹_›

end Mirrors

end HbmSim.Lib
