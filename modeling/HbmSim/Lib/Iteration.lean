import Mathlib.Logic.Function.Iterate
import Mathlib.Order.WellFounded

/-!
Steps that are taken again and again.
-/

namespace HbmSim.Lib

variable {σ : Type} {f : σ → σ} {Inv Done : σ → Prop} {R : σ → σ → Prop}

/-- A step that keeps an invariant and lowers a measure until it is done gets done. -/
theorem exists_iterate (wf : WellFounded R)
    (step : ∀ s, Inv s → Done s ∨ Done (f s) ∨ Inv (f s) ∧ R (f s) s) {s : σ} (start : Inv s) :
    ∃ n, Done (f^[n] s) := by
  induction s using wf.induction with
  | _ s ih =>
      rcases step s start with done | done | ⟨kept, lower⟩
      · exact ⟨0, done⟩
      · exact ⟨1, done⟩
      · obtain ⟨n, done⟩ := ih (f s) lower kept
        exact ⟨n + 1, done⟩

end HbmSim.Lib
