import Mathlib.Algebra.Ring.Nat

/-!
Lists compared position by position.
-/

namespace HbmSim.Lib

variable {α β : Type}

/-- A weight that grows at no position does not grow in total. -/
theorem sum_map_le_of_getElem? {f : α → Nat} {g : β → Nat} :
    ∀ {xs : List α} {ys : List β}, ys.length = xs.length →
      (∀ (i : Nat) x y, xs[i]? = some x → ys[i]? = some y → g y ≤ f x) →
      (ys.map g).sum ≤ (xs.map f).sum
  | [], [], _, _ => Nat.le_refl _
  | x :: xs, y :: ys, len, le => by
      have rest := sum_map_le_of_getElem? (f := f) (g := g) (Nat.succ.inj len)
        fun i x' y' hx hy => le (i + 1) x' y' (by simpa using hx) (by simpa using hy)
      have first := le 0 x y rfl rfl
      simp only [List.map_cons, List.sum_cons]
      omega

/-- A weight that besides shrinks at one position shrinks in total. -/
theorem sum_map_lt_of_getElem? {f : α → Nat} {g : β → Nat} :
    ∀ {xs : List α} {ys : List β} {i : Nat} {x : α} {y : β}, ys.length = xs.length →
      (∀ (i : Nat) x y, xs[i]? = some x → ys[i]? = some y → g y ≤ f x) →
      xs[i]? = some x → ys[i]? = some y → g y < f x →
      (ys.map g).sum < (xs.map f).sum
  | x :: xs, y :: ys, 0, _, _, len, le, hx, hy, lt => by
      have rest := sum_map_le_of_getElem? (f := f) (g := g) (Nat.succ.inj len)
        fun i x' y' hx hy => le (i + 1) x' y' (by simpa using hx) (by simpa using hy)
      cases hx
      cases hy
      simp only [List.map_cons, List.sum_cons]
      omega
  | x :: xs, y :: ys, i + 1, x', y', len, le, hx, hy, lt => by
      have rest := sum_map_lt_of_getElem? (Nat.succ.inj len)
        (fun i x' y' hx hy => le (i + 1) x' y' (by simpa using hx) (by simpa using hy))
        (show xs[i]? = some x' by simpa using hx) (show ys[i]? = some y' by simpa using hy) lt
      have first := le 0 x y rfl rfl
      simp only [List.map_cons, List.sum_cons]
      omega

/-- A property decided alike at every position holds equally often. -/
theorem countP_eq_of_getElem? {p : α → Bool} {q : β → Bool} :
    ∀ {xs : List α} {ys : List β}, ys.length = xs.length →
      (∀ (i : Nat) x y, xs[i]? = some x → ys[i]? = some y → q y = p x) → ys.countP q = xs.countP p
  | [], [], _, _ => rfl
  | x :: xs, y :: ys, len, same => by
      have rest := countP_eq_of_getElem? (p := p) (q := q) (Nat.succ.inj len)
        fun i x' y' hx hy => same (i + 1) x' y' (by simpa using hx) (by simpa using hy)
      have first := same 0 x y rfl rfl
      rw [List.countP_cons, List.countP_cons, rest, first]

/-- A property decided alike at every position but one. -/
theorem countP_replace {p : α → Bool} {q : β → Bool} :
    ∀ {xs : List α} {ys : List β} {i : Nat} {x : α} {y : β}, ys.length = xs.length →
      (∀ (j : Nat) x y, j ≠ i → xs[j]? = some x → ys[j]? = some y → q y = p x) →
      xs[i]? = some x → ys[i]? = some y →
      ys.countP q + (p x).toNat = xs.countP p + (q y).toNat
  | x :: xs, y :: ys, 0, x', y', len, same, hx, hy => by
      have rest := countP_eq_of_getElem? (p := p) (q := q) (Nat.succ.inj len)
        fun i x' y' hx hy => same (i + 1) x' y' (by omega) (by simpa using hx) (by simpa using hy)
      cases hx
      cases hy
      rw [List.countP_cons, List.countP_cons, rest]
      cases p x <;> cases q y <;> simp
  | x :: xs, y :: ys, i + 1, x', y', len, same, hx, hy => by
      have rest := countP_replace (p := p) (q := q) (Nat.succ.inj len)
        (fun j x' y' hj hx hy => same (j + 1) x' y' (by omega) (by simpa using hx) (by simpa using hy))
        (show xs[i]? = some x' by simpa using hx) (show ys[i]? = some y' by simpa using hy)
      have first := same 0 x y (by omega) rfl rfl
      rw [List.countP_cons, List.countP_cons, first]
      omega

/-- The first element a filter keeps. -/
theorem head?_map_filter {p : α → Bool} {f : α → β} {xs : List α} {y : β} :
    ((xs.filter p).map f).head? = some y ↔ ∃ before x after, xs = before ++ x :: after ∧
      (∀ z ∈ before, p z = false) ∧ p x = true ∧ f x = y := by
  constructor
  · intro h
    cases kept : xs.filter p with
    | nil =>
        rw [kept] at h
        cases h
    | cons x rest =>
        obtain ⟨before, after, rfl, none, here, -⟩ := List.filter_eq_cons_iff.mp kept
        rw [kept] at h
        exact ⟨before, x, after, rfl, fun z hz => by simpa using none z hz, here, Option.some.inj h⟩
  · rintro ⟨before, x, after, rfl, none, here, rfl⟩
    rw [List.filter_append, List.filter_eq_nil_iff.mpr fun z hz => by simp [none z hz],
      List.nil_append, List.filter_cons_of_pos here]
    rfl

/-- What holds of every element and those after it, in a list with one more in front. -/
theorem forall_suffix_cons {P : α → List α → Prop} {first : α} {rest : List α} :
    (∀ x after, (x :: after) <:+ (first :: rest) → P x after) ↔
      P first rest ∧ ∀ x after, (x :: after) <:+ rest → P x after := by
  constructor
  · exact fun h => ⟨h first rest List.suffix_rfl, fun x after suffix =>
      h x after (suffix.trans (List.suffix_cons first rest))⟩
  · rintro ⟨here, below⟩ x after suffix
    rcases List.suffix_cons_iff.mp suffix with same | suffix
    · obtain ⟨rfl, rfl⟩ := List.cons.inj same
      exact here
    · exact below x after suffix

theorem forall_suffix_nil {P : α → List α → Prop} :
    ∀ x after, (x :: after) <:+ ([] : List α) → P x after :=
  fun _ _ suffix => nomatch List.suffix_nil.mp suffix

/-- Take the one element with a key out of a list of distinct keys. -/
theorem perm_cons_filter [DecidableEq β] {f : α → β} {x : α} :
    ∀ {xs : List α}, (xs.map f).Nodup → x ∈ xs →
      xs.Perm (x :: xs.filter fun y => decide (f y ≠ f x))
  | y :: rest, distinct, mem => by
      obtain ⟨absent, distinct⟩ := List.nodup_cons.mp distinct
      rcases List.mem_cons.mp mem with rfl | mem
      · have others : ∀ z ∈ rest, decide (f z ≠ f x) = true := by
          intro z hz
          exact decide_eq_true fun same => absent (same ▸ List.mem_map_of_mem hz)
        rw [List.filter_cons_of_neg (by simp), List.filter_eq_self.mpr others]
      · have other : f y ≠ f x := fun same => absent (same ▸ List.mem_map_of_mem mem)
        rw [List.filter_cons_of_pos (by simpa using other)]
        exact ((perm_cons_filter distinct mem).cons y).trans (.swap x y _)

/-- A change of one element changes a sum by no more than it changes the element. -/
theorem sum_map_modify_le {f : α → α} {g : α → Nat} {more : Nat} (le : ∀ x, g (f x) ≤ g x + more)
    (xs : List α) (index : Nat) :
    ((xs.modify index f).map g).sum ≤ (xs.map g).sum + more := by
  induction xs generalizing index with
  | nil => simp
  | cons x rest ih =>
      cases index with
      | zero =>
          have first := le x
          simp only [List.modify_zero_cons, List.map_cons, List.sum_cons]
          omega
      | succ index =>
          have later := ih index
          simp only [List.modify_succ_cons, List.map_cons, List.sum_cons]
          omega

/-- Changing the one element with a key changes a sum by what it changes of that element. -/
theorem sum_map_modify [DecidableEq β] {key : α → β} {f : α → α} {g : α → Nat} {x : α} :
    ∀ {xs : List α}, (xs.map key).Nodup → x ∈ xs →
      ((xs.map fun y => if key y = key x then f y else y).map g).sum + g x =
        (xs.map g).sum + g (f x)
  | y :: rest, distinct, mem => by
      obtain ⟨absent, distinct⟩ := List.nodup_cons.mp distinct
      rcases List.mem_cons.mp mem with rfl | mem
      · have others : rest.map (fun y => if key y = key x then f y else y) = rest := by
          refine (List.map_congr_left fun y hy => ?_).trans (List.map_id' rest)
          have apart : key y ≠ key x := fun same => absent (same ▸ List.mem_map_of_mem hy)
          exact if_neg apart
        simp only [List.map_cons, List.sum_cons, others, if_pos]
        omega
      · have ih := sum_map_modify (f := f) (g := g) distinct mem
        have apart : key y ≠ key x := fun same => absent (same ▸ List.mem_map_of_mem mem)
        simp only [List.map_cons, List.sum_cons, if_neg apart]
        omega

/-- Removing the one element with a key takes its part out of a sum. -/
theorem sum_map_filter [DecidableEq β] {key : α → β} {g : α → Nat} {x : α} {xs : List α}
    (distinct : (xs.map key).Nodup) (mem : x ∈ xs) :
    ((xs.filter fun y => decide (key y ≠ key x)).map g).sum + g x = (xs.map g).sum := by
  have perm := (perm_cons_filter distinct mem).map g
  rw [perm.sum_nat, List.map_cons, List.sum_cons]
  exact Nat.add_comm _ _

end HbmSim.Lib
