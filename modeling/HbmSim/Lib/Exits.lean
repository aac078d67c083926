/-!
Reasoning about programs that read and write a state and may throw.

A program `x : EStateM ε σ α` run at a state either returns a value or throws,
and in both cases leaves a state behind: a throw keeps every write made before
it. `Exits x Q E s` says that running `x` at `s` returns into `Q` or throws into
`E`. The rules below compute it along the program's structure; a call of a
function with a proved specification is replaced by the specification with
`Exits.mono`.
-/

namespace HbmSim.Lib

variable {ε σ α β : Type}

/-- The state a run ends in, whichever way it ends. -/
def exitState : EStateM.Result ε σ α → σ
  | .ok _ s => s
  | .error _ s => s

/-- Every way out of `x` at `s`: a return satisfies `Q`, a throw satisfies `E`. -/
def Exits (x : EStateM ε σ α) (Q : α → σ → Prop) (E : ε → σ → Prop) (s : σ) : Prop :=
  match x s with
  | .ok a t => Q a t
  | .error e t => E e t

/-- A return is covered by the first condition. -/
theorem Exits.of_ok {x : EStateM ε σ α} {Q E} {s t : σ} {a : α}
    (h : Exits x Q E s) (run : x s = .ok a t) : Q a t := by
  unfold Exits at h
  rw [run] at h
  exact h

/-- A throw is covered by the second. -/
theorem Exits.of_error {x : EStateM ε σ α} {Q E} {s t : σ} {e : ε}
    (h : Exits x Q E s) (run : x s = .error e t) : E e t := by
  unfold Exits at h
  rw [run] at h
  exact h

/-- After a return the rest runs. -/
theorem bind_of_ok {x : EStateM ε σ α} {f : α → EStateM ε σ β} {s t : σ} {a : α}
    (run : x s = .ok a t) : (x >>= f) s = f a t := by
  show EStateM.bind x f s = f a t
  unfold EStateM.bind
  rw [run]

/-- After a throw it does not. -/
theorem bind_of_error {x : EStateM ε σ α} {f : α → EStateM ε σ β} {s t : σ} {e : ε}
    (run : x s = .error e t) : (x >>= f) s = .error e t := by
  show EStateM.bind x f s = .error e t
  unfold EStateM.bind
  rw [run]

/-- A pure computation returns its value and keeps the state. -/
theorem ofExcept_eq_ok {r : Except ε α} {s t : σ} {a : α} :
    (ofExcept r : EStateM ε σ α) s = .ok a t ↔ r = .ok a ∧ t = s := by
  cases r with
  | ok b =>
      show EStateM.Result.ok b s = .ok a t ↔ _
      simp [eq_comm]
  | error e =>
      show EStateM.Result.error e s = .ok a t ↔ _
      simp

/-- A condition on the state left behind, whichever way the run ends. -/
theorem exits_exitState (P : σ → Prop) {x : EStateM ε σ α} {s : σ} :
    Exits x (fun _ t => P t) (fun _ t => P t) s ↔ P (exitState (x s)) := by
  unfold Exits exitState
  cases x s <;> rfl

/-- A program that goes on from the state it reads. -/
theorem get_bind (f : σ → EStateM ε σ α) (s : σ) : (get >>= f) s = f s s := rfl

/-- A specification of a call implies any weaker one. -/
theorem Exits.mono {x : EStateM ε σ α} {Q Q' : α → σ → Prop} {E E' : ε → σ → Prop} {s : σ}
    (h : Exits x Q E s) (ok : ∀ a t, Q a t → Q' a t) (error : ∀ e t, E e t → E' e t) :
    Exits x Q' E' s := by
  unfold Exits at h ⊢
  split at h
  · rename_i a t _
    exact ok a t h
  · rename_i e t _
    exact error e t h

/-- Two specifications of one call hold together. -/
theorem Exits.and {x : EStateM ε σ α} {Q Q' : α → σ → Prop} {E E' : ε → σ → Prop} {s : σ}
    (h : Exits x Q E s) (h' : Exits x Q' E' s) :
    Exits x (fun a t => Q a t ∧ Q' a t) (fun e t => E e t ∧ E' e t) s := by
  unfold Exits at h h' ⊢
  split at h <;> simp_all

/-- The run's own result is always a specification of it. -/
theorem Exits.self (x : EStateM ε σ α) (s : σ) :
    Exits x (fun a t => x s = .ok a t) (fun e t => x s = .error e t) s := by
  unfold Exits
  split <;> assumption

@[simp] theorem exits_pure {Q : α → σ → Prop} {E : ε → σ → Prop} {s : σ} (a : α) :
    Exits (pure a : EStateM ε σ α) Q E s ↔ Q a s := Iff.rfl

@[simp] theorem exits_throw {Q : α → σ → Prop} {E : ε → σ → Prop} {s : σ} (e : ε) :
    Exits (throw e : EStateM ε σ α) Q E s ↔ E e s := Iff.rfl

@[simp] theorem exits_get {Q : σ → σ → Prop} {E : ε → σ → Prop} {s : σ} :
    Exits (get : EStateM ε σ σ) Q E s ↔ Q s s := Iff.rfl

@[simp] theorem exits_set {Q : PUnit → σ → Prop} {E : ε → σ → Prop} {s t : σ} :
    Exits (set t : EStateM ε σ PUnit) Q E s ↔ Q ⟨⟩ t := Iff.rfl

@[simp] theorem exits_modify {Q : PUnit → σ → Prop} {E : ε → σ → Prop} {s : σ} (f : σ → σ) :
    Exits (modify f : EStateM ε σ PUnit) Q E s ↔ Q ⟨⟩ (f s) := Iff.rfl

@[simp] theorem exits_modifyGet {Q : α → σ → Prop} {E : ε → σ → Prop} {s : σ} (f : σ → α × σ) :
    Exits (modifyGet f : EStateM ε σ α) Q E s ↔ Q (f s).1 (f s).2 := Iff.rfl

@[simp] theorem exits_bind {Q : β → σ → Prop} {E : ε → σ → Prop} {s : σ}
    (x : EStateM ε σ α) (f : α → EStateM ε σ β) :
    Exits (x >>= f) Q E s ↔ Exits x (fun a t => Exits (f a) Q E t) E s := by
  unfold Exits
  show (match EStateM.bind x f s with
    | .ok a t => Q a t
    | .error e t => E e t) ↔ _
  unfold EStateM.bind
  cases x s <;> rfl

/-- A branch is judged under its condition. -/
theorem exits_ite {Q : α → σ → Prop} {E : ε → σ → Prop} {s : σ} {p : Prop} [Decidable p]
    (x y : EStateM ε σ α) :
    Exits (if p then x else y) Q E s ↔ (p → Exits x Q E s) ∧ (¬ p → Exits y Q E s) := by
  split <;> simp_all

@[simp] theorem exits_ofExcept {Q : α → σ → Prop} {E : ε → σ → Prop} {s : σ}
    (r : Except ε α) :
    Exits (ofExcept r : EStateM ε σ α) Q E s ↔
      (∀ a, r = .ok a → Q a s) ∧ (∀ e, r = .error e → E e s) := by
  cases r with
  | ok a => simp [ofExcept]
  | error e => simp [ofExcept]

end HbmSim.Lib
