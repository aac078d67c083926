/-!
Pure computations that may throw, and folds of them.

`bind_eq_ok` and its companions take a computation apart into the parts that
returned or the part that threw. The fold rules are an invariant rule, and the
rule that moves a transformation of the accumulator out of the fold.
-/

namespace HbmSim.Lib

variable {ε α β γ : Type}

theorem bind_eq_ok {x : Except ε α} {f : α → Except ε β} {b : β} :
    (x >>= f) = .ok b ↔ ∃ a, x = .ok a ∧ f a = .ok b := by
  cases x with
  | ok a => exact ⟨fun h => ⟨a, rfl, h⟩, by rintro ⟨_, ⟨⟩, h⟩; exact h⟩
  | error e => exact ⟨nofun, by rintro ⟨_, ⟨⟩, _⟩⟩

theorem bind_eq_error {x : Except ε α} {f : α → Except ε β} {e : ε} :
    (x >>= f) = .error e ↔ x = .error e ∨ ∃ a, x = .ok a ∧ f a = .error e := by
  cases x with
  | ok a => exact ⟨fun h => .inr ⟨a, rfl, h⟩, by rintro (⟨⟨⟩⟩ | ⟨_, ⟨⟩, h⟩); exact h⟩
  | error e' =>
      constructor
      · intro h
        exact .inl (congrArg Except.error (Except.error.inj h))
      · rintro (h | ⟨_, ⟨⟩, _⟩)
        exact congrArg Except.error (Except.error.inj h)

theorem map_eq_ok {x : Except ε α} {f : α → β} {b : β} :
    (f <$> x) = .ok b ↔ ∃ a, x = .ok a ∧ f a = b := by
  cases x with
  | ok a => exact ⟨fun h => ⟨a, rfl, Except.ok.inj h⟩, by rintro ⟨_, ⟨⟩, h⟩; exact congrArg _ h⟩
  | error e => exact ⟨nofun, by rintro ⟨_, ⟨⟩, _⟩⟩

theorem mapError_eq_ok {ε' : Type} {x : Except ε α} {f : ε → ε'} {a : α} :
    x.mapError f = .ok a ↔ x = .ok a := by
  cases x with
  | ok b => exact ⟨fun h => congrArg _ (Except.ok.inj h), fun h => congrArg _ (Except.ok.inj h)⟩
  | error e => exact ⟨nofun, nofun⟩

@[simp] theorem map_ok (f : α → β) (a : α) : (f <$> (.ok a : Except ε α)) = .ok (f a) := rfl

@[simp] theorem map_error (f : α → β) (e : ε) :
    (f <$> (.error e : Except ε α)) = .error e := rfl

@[simp] theorem ok_bind (f : α → Except ε β) (a : α) : ((.ok a : Except ε α) >>= f) = f a := rfl

@[simp] theorem error_bind (f : α → Except ε β) (e : ε) :
    ((.error e : Except ε α) >>= f) = .error e := rfl

/-! ### Folds -/

/-- A transformation of the accumulator that every round commutes with moves out
of the fold. -/
theorem foldlM_map {f f' : γ → α → Except ε γ} {g : γ → γ}
    (round : ∀ acc a, f' (g acc) a = g <$> f acc a) (xs : List α) (acc : γ) :
    xs.foldlM f' (g acc) = g <$> xs.foldlM f acc := by
  induction xs generalizing acc with
  | nil => rfl
  | cons a rest ih =>
      simp only [List.foldlM_cons, round]
      cases f acc a with
      | ok acc' => exact ih acc'
      | error e => rfl

/-- What the start satisfies and every round keeps, a returned fold satisfies. The
invariant may speak of the elements folded so far. -/
theorem foldlM_ok {f : γ → α → Except ε γ} {P : List α → γ → Prop}
    (round : ∀ done a acc acc', P done acc → f acc a = .ok acc' → P (done ++ [a]) acc')
    {xs : List α} {acc result : γ} (start : P [] acc) (run : xs.foldlM f acc = .ok result) :
    P xs result := by
  suffices h : ∀ done acc, P done acc → xs.foldlM f acc = .ok result → P (done ++ xs) result by
    simpa using h [] acc start run
  clear start run
  induction xs with
  | nil =>
      intro done acc start run
      obtain rfl : acc = result := Except.ok.inj run
      simpa using start
  | cons a rest ih =>
      intro done acc start run
      rw [List.foldlM_cons, bind_eq_ok] at run
      obtain ⟨acc', first, run⟩ := run
      simpa using ih (done ++ [a]) acc' (round done a acc acc' start first) run

/-- A fold that throws throws in one of its rounds. -/
theorem foldlM_error {f : γ → α → Except ε γ} {xs : List α} {acc : γ} {e : ε}
    (run : xs.foldlM f acc = .error e) : ∃ a ∈ xs, ∃ acc', f acc' a = .error e := by
  induction xs generalizing acc with
  | nil => exact nomatch run
  | cons a rest ih =>
      rw [List.foldlM_cons, bind_eq_error] at run
      rcases run with first | ⟨acc', _, run⟩
      · exact ⟨a, List.mem_cons_self, acc, first⟩
      · obtain ⟨b, hb, rest⟩ := ih run
        exact ⟨b, List.mem_cons_of_mem _ hb, rest⟩

end HbmSim.Lib
