import HbmSim.Lib.Exits
import Mathlib.Order.Defs.Unbundled

/-!
What a program leaves in relation to what it found.

A program stays within a relation if it leaves every state related to the state it started
from, whether it returns or throws. For a relation that is reflexive and transitive the
rules below follow the program's structure and need no invariant. A program preserves an
invariant if it returns to it; what it leaves when it throws is a condition of its own.
-/

namespace HbmSim.Lib

variable {ε σ α β : Type} {R : σ → σ → Prop}

/-- However `x` ends, it leaves a state related to the one it started from. -/
def Stays (R : σ → σ → Prop) (x : EStateM ε σ α) : Prop := ∀ s, R s (exitState (x s))

/-- From a state of the invariant `x` returns to one, or throws into `E`. -/
def Preserves (I : σ → Prop) (E : ε → σ → Prop) (x : EStateM ε σ α) : Prop :=
  ∀ s, I s → Exits x (fun _ t => I t) E s

namespace Stays

/-- As a judgement of the exits logic. -/
theorem exits {x : EStateM ε σ α} (h : Stays R x) (s : σ) :
    Exits x (fun _ t => R s t) (fun _ t => R s t) s := by
  have left := h s
  unfold Exits
  unfold exitState at left
  split <;> rename_i run
  all_goals
    rw [run] at left
    exact left

/-- A change of state within the relation. -/
theorem modify {f : σ → σ} (h : ∀ s, R s (f s)) : Stays R (modify f : EStateM ε σ PUnit) := h

/-- A change of state that also answers. -/
theorem modifyGet {f : σ → α × σ} (h : ∀ s, R s (f s).2) :
    Stays R (modifyGet f : EStateM ε σ α) := h

theorem mono {S : σ → σ → Prop} {x : EStateM ε σ α} (h : Stays R x)
    (weaker : ∀ s t, R s t → S s t) :
    Stays S x := fun s => weaker _ _ (h s)

/-- Both branches. -/
theorem ite {p : Prop} {_ : Decidable p} {x y : EStateM ε σ α} (yes : p → Stays R x)
    (no : ¬ p → Stays R y) : Stays R (if p then x else y) := by
  split
  · exact yes ‹_›
  · exact no ‹_›

section

variable [Std.Refl R]

/-- Returning changes nothing, and the relation is reflexive. -/
theorem pure (a : α) : Stays R (Pure.pure a : EStateM ε σ α) := fun s => Std.Refl.refl s

/-- Throwing changes nothing. -/
theorem throw (e : ε) : Stays R (MonadExcept.throw e : EStateM ε σ α) := fun s => Std.Refl.refl s

theorem get : Stays R (MonadState.get : EStateM ε σ σ) := fun s => Std.Refl.refl s

/-- A pure computation that may fail. -/
theorem ofExcept (r : Except ε α) : Stays R (MonadExcept.ofExcept r : EStateM ε σ α) := by
  cases r <;> exact fun s => Std.Refl.refl s

end

/-- A sequence from one state, if its second part stays within the relation where it starts. -/
theorem bind_from [IsTrans σ R] {x : EStateM ε σ α} {f : α → EStateM ε σ β} {s : σ}
    (first : R s (exitState (x s)))
    (rest : ∀ a t, x s = .ok a t → R t (exitState (f a t))) :
    R s (exitState ((x >>= f) s)) := by
  show R s (exitState (EStateM.bind x f s))
  unfold EStateM.bind
  cases run : x s with
  | ok a t =>
      rw [run] at first
      exact IsTrans.trans _ _ _ first (rest a t run)
  | error e t =>
      rw [run] at first
      exact first

/-- One after the other, by transitivity. -/
theorem bind [IsTrans σ R] {x : EStateM ε σ α} {f : α → EStateM ε σ β} (first : Stays R x)
    (rest : ∀ a, Stays R (f a)) : Stays R (x >>= f) :=
  fun s => bind_from (first s) fun a t _ => rest a t

/-- A program that goes on from the state it reads. -/
theorem getBind {f : σ → EStateM ε σ α} (rest : ∀ s, R s (exitState (f s s))) :
    Stays R (MonadState.get >>= f) := rest

/-- A computation that first replaces the state. -/
theorem setBind [IsTrans σ R] {s t : σ} {f : PUnit → EStateM ε σ α} (first : R s t)
    (rest : Stays R (f ⟨⟩)) : R s (exitState ((MonadState.set t >>= f) s)) :=
  IsTrans.trans _ _ _ first (rest t)

/-- The state a throw leaves. -/
theorem of_error {x : EStateM ε σ α} (h : Stays R x) {s t : σ} {e : ε} (run : x s = .error e t) :
    R s t := by
  have left := h s
  rwa [run] at left

/-- A program stays within a relation if it preserves what is related to any one state. -/
theorem of_preserves [Std.Refl R] {x : EStateM ε σ α}
    (h : ∀ s, Preserves (R s) (fun _ => R s) x) : Stays R x :=
  fun s => (exits_exitState (R s)).mp (h s s (Std.Refl.refl s))

/-- Being related to a fixed state is an invariant. -/
theorem preserves [IsTrans σ R] {x : EStateM ε σ α} (h : Stays R x) (s : σ) :
    Preserves (R s) (fun _ => R s) x := fun t related =>
  (h.exits t).mono (fun _ _ later => IsTrans.trans _ _ _ related later)
    fun _ _ later => IsTrans.trans _ _ _ related later

end Stays

namespace Preserves

variable {I : σ → Prop} {E : ε → σ → Prop}

theorem pure (a : α) : Preserves I E (Pure.pure a : EStateM ε σ α) := fun _ h => h

/-- An exception must be covered by the exceptional condition. -/
theorem throw (throws : ∀ e s, I s → E e s) (e : ε) :
    Preserves I E (MonadExcept.throw e : EStateM ε σ α) := fun s h => throws e s h

theorem get : Preserves I E (MonadState.get : EStateM ε σ σ) := fun _ h => h

theorem ofExcept (throws : ∀ e s, I s → E e s) (r : Except ε α) :
    Preserves I E (MonadExcept.ofExcept r : EStateM ε σ α) := by
  cases r with
  | ok a => exact pure a
  | error e => exact throw throws e

theorem modify {f : σ → σ} (h : ∀ s, I s → I (f s)) :
    Preserves I E (modify f : EStateM ε σ PUnit) := h

theorem modifyGet {f : σ → α × σ} (h : ∀ s, I s → I (f s).2) :
    Preserves I E (modifyGet f : EStateM ε σ α) := h

theorem ite {p : Prop} {_ : Decidable p} {x y : EStateM ε σ α} (yes : p → Preserves I E x)
    (no : ¬ p → Preserves I E y) : Preserves I E (if p then x else y) := by
  split
  · exact yes ‹_›
  · exact no ‹_›

theorem bind {x : EStateM ε σ α} {f : α → EStateM ε σ β} (first : Preserves I E x)
    (rest : ∀ a, Preserves I E (f a)) : Preserves I E (x >>= f) := fun s h =>
  (exits_bind x f).mpr ((first s h).mono (fun a t h => rest a t h) fun _ _ thrown => thrown)

end Preserves

end HbmSim.Lib
