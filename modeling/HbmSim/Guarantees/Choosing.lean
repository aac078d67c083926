import Mathlib.Data.List.MinMax
import Mathlib.Data.List.Nodup
import Mathlib.Data.Prod.Lex
import HbmSim.Controller.Policy

/-!
The choice of the schedulers.

A scheduler compares candidates by a key in a linear order, so `std::min_element` finds the
candidate with the least key, in whatever order the candidates are given.
-/

namespace HbmSim

open OrderDual

/-! ### Least elements -/

section

variable {α β : Type} [LinearOrder β] {less : α → α → Bool} {f : α → β}

/-- With the comparison of a key, `std::min_element` is the first argument of the minimum. -/
theorem minElement_eq_argmin (lt : ∀ a b, less a b = true ↔ f a < f b) (xs : List α) :
    minElement less xs = xs.argmin f := by
  cases xs with
  | nil => rfl
  | cons a rest =>
      have fold : ∀ best, some (rest.foldl (fun best x => if less x best then x else best) best) =
          rest.foldl (List.argAux fun b c => f b < f c) (some best) := by
        induction rest with
        | nil => exact fun _ => rfl
        | cons b rest ih =>
            intro best
            rw [List.foldl_cons, List.foldl_cons, ih]
            congr 1
            unfold List.argAux
            by_cases smaller : f b < f best
            · simp only [(lt b best).mpr smaller, smaller, if_true]
            · simp only [mt (lt b best).mp smaller, smaller, if_false, Bool.false_eq_true]
      exact fold a

/-- An element that comes before every other element of a list. -/
structure Least (f : α → β) (xs : List α) (a : α) : Prop where
  mem : a ∈ xs
  first : ∀ b ∈ xs, b ≠ a → f a < f b

theorem Least.unique {xs : List α} {a b : α} (ha : Least f xs a) (hb : Least f xs b) : a = b := by
  by_contra apart
  exact lt_asymm (ha.first b hb.mem (Ne.symm apart)) (hb.first a ha.mem apart)

theorem Least.perm {xs ys : List α} {a : α} (least : Least f xs a) (same : ys.Perm xs) :
    Least f ys a :=
  ⟨same.mem_iff.mpr least.mem, fun b hb => least.first b (same.mem_iff.mp hb)⟩

/-- If the keys of a list are distinct, `std::min_element` finds its least element. -/
theorem minElement_least (lt : ∀ a b, less a b = true ↔ f a < f b) {xs : List α}
    (distinct : ∀ a ∈ xs, ∀ b ∈ xs, f a = f b → a = b) (some : xs ≠ []) :
    ∃ a, minElement less xs = .some a ∧ Least f xs a := by
  rw [minElement_eq_argmin lt]
  cases chosen : xs.argmin f with
  | none => exact absurd (List.argmin_eq_none.mp chosen) some
  | some a =>
      have mem : a ∈ xs := List.argmin_mem chosen
      refine ⟨a, rfl, mem, fun b hb apart => ?_⟩
      apply lt_of_le_of_ne (List.le_of_mem_argmin hb chosen)
      exact fun same => apart (distinct b hb a mem same.symm)

end

/-! ### The keys of the schedulers -/

/-- What a scheduler compares, the smaller the sooner: whether the candidate has to wait, and
until when, its priority and its class (the higher the sooner), and its sequence number. -/
abbrev SchedulerKey := Nat ×ₗ Nat ×ₗ Natᵒᵈ ×ₗ Natᵒᵈ ×ₗ Nat

namespace SchedulerKind

/-- The class of a candidate: row-hit data, other data, other commands, or row hits only. -/
def rank (kind : SchedulerKind) (c : SchedulerCandidate) : Nat :=
  match kind with
  | .frFcfs => if c.dataCommand then if c.rowHit then 3 else 2 else 1
  | .frFcfsRowHit => c.rowHit.toNat
  | .fifo => 0

/-- The key of a candidate. -/
def key (kind : SchedulerKind) (now : Nat) (c : SchedulerCandidate) : SchedulerKey :=
  match kind with
  | .fifo => toLex (0, toLex (0, toLex (toDual 0, toLex (toDual 0, c.sequence))))
  | kind =>
      toLex (if c.readyAt ≤ now then 0 else 1,
        toLex (if c.readyAt ≤ now then 0 else c.readyAt,
          toLex (toDual c.requestPriority, toLex (toDual (kind.rank c), c.sequence))))

variable {kind : SchedulerKind} {now : Nat} {a b : SchedulerCandidate}

/-- The comparison of a scheduler is the one of its keys. -/
theorem less_iff (kind : SchedulerKind) (now : Nat) (a b : SchedulerCandidate) :
    kind.less now a b = true ↔ kind.key now a < kind.key now b := by
  cases kind with
  | frFcfs =>
      unfold less frFcfsLess key rank
      simp only [Prod.Lex.toLex_lt_toLex, toDual_lt_toDual, toDual_inj]
      generalize (if a.dataCommand = true then if a.rowHit = true then 3 else 2 else 1) = left
      generalize (if b.dataCommand = true then if b.rowHit = true then 3 else 2 else 1) = right
      by_cases leftReady : a.readyAt ≤ now <;> by_cases rightReady : b.readyAt ≤ now
      all_goals
        simp only [leftReady, rightReady]
        grind
  | frFcfsRowHit =>
      unfold less frFcfsRowHitLess key rank
      simp only [Prod.Lex.toLex_lt_toLex, toDual_lt_toDual, toDual_inj]
      by_cases leftReady : a.readyAt ≤ now <;> by_cases rightReady : b.readyAt ≤ now
      all_goals
        simp only [leftReady, rightReady]
        cases a.rowHit <;> cases b.rowHit <;> grind
  | fifo =>
      unfold less fifoLess key
      simp only [Prod.Lex.toLex_lt_toLex, lt_self_iff_false, true_and, false_or, decide_eq_true_eq]

/-- The comparison of a scheduler is a strict weak order. -/
theorem less_strictWeakOrder (kind : SchedulerKind) (now : Nat) :
    IsStrictWeakOrder SchedulerCandidate fun a b => kind.less now a b = true := by
  have same : (fun a b => kind.less now a b = true) = Order.Preimage (kind.key now) (· < ·) := by
    funext a b
    exact propext (less_iff kind now a b)
  have total : IsStrictWeakOrder SchedulerKey (· < ·) := isStrictWeakOrder_of_isOrderConnected
  rw [same]
  infer_instance

/-- Candidates with one key have one sequence number. -/
theorem key_inj {kind : SchedulerKind} {now : Nat} {a b : SchedulerCandidate}
    (same : kind.key now a = kind.key now b) : a.sequence = b.sequence := by
  cases kind with
  | fifo => simpa only [key, toLex_inj, Prod.mk.injEq, true_and] using same
  | frFcfs =>
      simp only [key, toLex_inj, Prod.mk.injEq] at same
      exact same.2.2.2.2
  | frFcfsRowHit =>
      simp only [key, toLex_inj, Prod.mk.injEq] at same
      exact same.2.2.2.2

/-- A ready candidate comes before one that has to wait. -/
theorem key_lt_of_ready {kind : SchedulerKind} (reorders : kind ≠ .fifo) {now : Nat}
    {a b : SchedulerCandidate} (ready : a.readyAt ≤ now) (waits : ¬ b.readyAt ≤ now) :
    kind.key now a < kind.key now b := by
  cases kind with
  | fifo => exact absurd rfl reorders
  | frFcfs =>
      simp only [key, Prod.Lex.toLex_lt_toLex, ready, waits, if_true, if_false]
      exact .inl Nat.one_pos
  | frFcfsRowHit =>
      simp only [key, Prod.Lex.toLex_lt_toLex, ready, waits, if_true, if_false]
      exact .inl Nat.one_pos

end SchedulerKind

/-- A scheduler compares candidates by a strict weak order, that of their keys, and chooses the
least candidate, in whatever order the candidates are given; FR-FCFS chooses a ready one if
there is one. -/
theorem chosen_is_least (kind : SchedulerKind) (now : Nat) {candidates : List SchedulerCandidate}
    (some : candidates ≠ []) (distinct : (candidates.map (·.sequence)).Nodup) :
    (IsStrictWeakOrder SchedulerCandidate fun a b => kind.less now a b = true) ∧
      (∀ a b, kind.less now a b = true ↔ kind.key now a < kind.key now b) ∧
      ∃ best, kind.choose candidates now = .some best ∧ Least (kind.key now) candidates best ∧
        (∀ other, Least (kind.key now) candidates other → other = best) ∧
        (∀ permuted, permuted.Perm candidates → kind.choose permuted now = .some best) ∧
        (kind ≠ .fifo → (∃ c ∈ candidates, c.readyAt ≤ now) → best.readyAt ≤ now) := by
  have chooses : ∀ permuted : List SchedulerCandidate, permuted.Perm candidates →
      ∃ a, kind.choose permuted now = .some a ∧ Least (kind.key now) permuted a := by
    intro permuted same
    apply minElement_least (kind.less_iff now)
    · intro a ha b hb keys
      exact List.inj_on_of_nodup_map distinct (same.mem_iff.mp ha) (same.mem_iff.mp hb)
        (SchedulerKind.key_inj keys)
    · rintro rfl
      exact some (List.nil_perm.mp same)
  obtain ⟨best, chosen, least⟩ := chooses candidates (.refl _)
  refine ⟨kind.less_strictWeakOrder now, kind.less_iff now, best, chosen, least,
    fun other first => first.unique least, fun permuted same => ?_,
      fun reorders ⟨c, hc, ready⟩ => ?_⟩
  · obtain ⟨other, chosen', least'⟩ := chooses permuted same
    rw [chosen', (least'.perm same.symm).unique least]
  · by_contra waits
    have before := SchedulerKind.key_lt_of_ready reorders ready waits
    rcases eq_or_ne c best with rfl | apart
    · exact waits ready
    · exact lt_asymm before (least.first c hc apart)

/-- An activation that has to wait, and a younger row hit that is ready. -/
def hitBehindActivation : List SchedulerCandidate :=
  [{ readyAt := 20, sequence := 1 },
    { readyAt := 10, sequence := 2, rowHit := true, dataCommand := true }]

theorem chosen_is_least_hit : ∃ best,
    SchedulerKind.choose .frFcfs hitBehindActivation 10 = some best ∧
      SchedulerKind.choose .frFcfs hitBehindActivation.reverse 10 = some best ∧
        best.readyAt ≤ 10 := by
  obtain ⟨-, -, best, chosen, -, -, permuted, ready⟩ :=
    @chosen_is_least .frFcfs 10 hitBehindActivation (by decide) (by decide)
  exact ⟨best, chosen, permuted _ (List.reverse_perm _), ready nofun (by decide)⟩

end HbmSim
