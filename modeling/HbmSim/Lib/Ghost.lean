import Mathlib.Logic.Relation
import HbmSim.Lib.Exits

/-!
Programs that follow a relation on states extended by a ghost.

A program reads and writes a state; a ghost beside the state records what the
program owes, and a relation `R` on the pairs lists the moves that are allowed.
`Follows R E x Q p` says that a run of `x` from the pair `p` is a sequence of
moves: a return ends at a pair in `Q`, and a throw happens at a pair the moves have
led to, `E` relating that pair to the state the throw leaves.
-/

namespace HbmSim.Lib

open Relation

variable {ε σ δ α β : Type} {R : σ × δ → σ × δ → Prop} {E : ε → σ × δ → σ → Prop} {p q : σ × δ}

def Follows (R : σ × δ → σ × δ → Prop) (E : ε → σ × δ → σ → Prop) (x : EStateM ε σ α)
    (Q : α → σ × δ → Prop) (p : σ × δ) : Prop :=
  Exits x (fun a t => ∃ d, ReflTransGen R p (t, d) ∧ Q a (t, d))
    (fun e t => ∃ q, ReflTransGen R p q ∧ E e q t) p.1

namespace Follows

/-- A program that follows the relation from where moves have led follows it from
where they began. -/
theorem resume {x : EStateM ε σ α} {Q : α → σ × δ → Prop} (moves : ReflTransGen R p q)
    (h : Follows R E x Q q) :
    Exits x (fun a t => ∃ d, ReflTransGen R p (t, d) ∧ Q a (t, d))
      (fun e t => ∃ q, ReflTransGen R p q ∧ E e q t) q.1 := by
  refine Exits.mono h ?_ ?_
  · rintro a t ⟨d, later, post⟩
    exact ⟨d, moves.trans later, post⟩
  · rintro e t ⟨r, later, post⟩
    exact ⟨r, moves.trans later, post⟩

/-- A ghost move before the program starts. -/
theorem ghost {x : EStateM ε σ α} {Q : α → σ × δ → Prop} (moves : ReflTransGen R p q)
    (same : q.1 = p.1) (h : Follows R E x Q q) : Follows R E x Q p := by
  have from_p := h.resume moves
  rwa [same] at from_p

theorem pure {Q : α → σ × δ → Prop} {a : α} (post : Q a p) :
    Follows R E (Pure.pure a) Q p :=
  ⟨p.2, .refl, post⟩

/-- A throw before the program has moved. -/
theorem throw {Q : α → σ × δ → Prop} {e : ε} (post : E e p p.1) :
    Follows R E (MonadExcept.throw e : EStateM ε σ α) Q p :=
  ⟨p, .refl, post⟩

theorem mono {x : EStateM ε σ α} {Q Q' : α → σ × δ → Prop} (h : Follows R E x Q p)
    (weaker : ∀ a q, ReflTransGen R p q → Q a q → Q' a q) : Follows R E x Q' p := by
  refine Exits.mono h ?_ fun _ _ h => h
  rintro a t ⟨d, moves, post⟩
  exact ⟨d, moves, weaker a (t, d) moves post⟩

/-- What comes after a call starts where the call's moves have led. -/
theorem bind {x : EStateM ε σ α} {f : α → EStateM ε σ β} {Q : α → σ × δ → Prop}
    {Q' : β → σ × δ → Prop} (h : Follows R E x Q p)
    (rest : ∀ a q, ReflTransGen R p q → Q a q → Follows R E (f a) Q' q) :
    Follows R E (x >>= f) Q' p := by
  unfold Follows
  rw [exits_bind]
  refine Exits.mono h ?_ fun _ _ h => h
  rintro a t ⟨d, moves, post⟩
  exact (rest a (t, d) moves post).resume moves

/-- Reading the state. -/
theorem get {f : σ → EStateM ε σ β} {Q : β → σ × δ → Prop} (rest : Follows R E (f p.1) Q p) :
    Follows R E (MonadState.get >>= f) Q p := rest

/-- A write that is a move. -/
theorem modify {f : σ → σ} {d : δ} {Q : PUnit → σ × δ → Prop} (move : R p (f p.1, d))
    (post : Q ⟨⟩ (f p.1, d)) : Follows R E (modify f : EStateM ε σ PUnit) Q p :=
  ⟨d, .single move, post⟩

end Follows

end HbmSim.Lib
