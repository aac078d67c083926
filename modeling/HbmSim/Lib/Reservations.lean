import Mathlib.Algebra.Ring.Nat
import Mathlib.Data.List.Pairwise
import Mathlib.Order.CompletePartialOrder
import Mathlib.Order.Interval.Set.Disjoint

/-!
Reservations of exclusive resources.

A log holds reservations, the newest first, each of one resource from a start to a finish.
A ready time for each resource is all that is kept to decide by. Whoever starts no
earlier than the resource is ready, and moves its ready time to the finish, keeps the
reservations of a resource apart: no two of them overlap, in whatever order they are compared.
-/

namespace HbmSim.Lib

variable {ρ β : Type} {resource : ρ → β} {start finish : ρ → Nat}

/-- The reservations of one resource come one after the other, and it is ready after the
last one. -/
structure Booked (resource : ρ → β) (start finish : ρ → Nat) (readyAt : β → Nat) (log : List ρ) :
    Prop where
  apart : log.Pairwise fun later earlier =>
    resource earlier = resource later → finish earlier ≤ start later
  ready : ∀ r ∈ log, finish r ≤ readyAt (resource r)

namespace Booked

variable {readyAt readyAt' : β → Nat} {log : List ρ} {r : ρ}

theorem nil : Booked resource start finish readyAt [] where
  apart := .nil
  ready r hr := by cases hr

/-- A reservation that waits for its resource and moves its ready time. -/
theorem reserve (h : Booked resource start finish readyAt log)
    (waits : readyAt (resource r) ≤ start r)
    (forward : start r ≤ finish r) (here : readyAt' (resource r) = finish r)
    (others : ∀ b, b ≠ resource r → readyAt' b = readyAt b) :
    Booked resource start finish readyAt' (r :: log) where
  apart := by
    refine List.pairwise_cons.mpr ⟨fun e he same => ?_, h.apart⟩
    have before := h.ready e he
    rw [same] at before
    exact Nat.le_trans before waits
  ready e he := by
    rcases List.mem_cons.mp he with rfl | he
    · exact Nat.le_of_eq here.symm
    · have before := h.ready e he
      by_cases same : resource e = resource r
      · rw [same] at before ⊢
        omega
      · rw [others _ same]
        exact before

/-- Two reservations of one resource, at different places of the log. -/
theorem one_first (h : Booked resource start finish readyAt log) {i j : Nat} {a b : ρ}
    (distinct : i ≠ j) (ha : log[i]? = some a) (hb : log[j]? = some b)
    (same : resource a = resource b) : finish a ≤ start b ∨ finish b ≤ start a := by
  obtain ⟨hi, rfl⟩ := List.getElem?_eq_some_iff.mp ha
  obtain ⟨hj, rfl⟩ := List.getElem?_eq_some_iff.mp hb
  rcases Nat.lt_or_gt_of_ne distinct with older | newer
  · exact .inr (List.pairwise_iff_getElem.mp h.apart i j hi hj older same.symm)
  · exact .inl (List.pairwise_iff_getElem.mp h.apart j i hj hi newer same)

/-- They do not overlap. -/
theorem disjoint (h : Booked resource start finish readyAt log) {i j : Nat} {a b : ρ}
    (distinct : i ≠ j) (ha : log[i]? = some a) (hb : log[j]? = some b)
    (same : resource a = resource b) :
    Disjoint (Set.Ico (start a) (finish a)) (Set.Ico (start b) (finish b)) := by
  apply Set.Ico_disjoint_Ico.mpr
  rcases h.one_first distinct ha hb same with first | first
  · exact Nat.le_trans (Nat.min_le_left _ _) (Nat.le_trans first (Nat.le_max_right _ _))
  · exact Nat.le_trans (Nat.min_le_right _ _) (Nat.le_trans first (Nat.le_max_left _ _))

/-- The one that starts first, if their lengths agree on whether they are empty, has
finished when the other starts. -/
theorem finish_le (h : Booked resource start finish readyAt log) {i j : Nat} {a b : ρ}
    (distinct : i ≠ j) (ha : log[i]? = some a) (hb : log[j]? = some b)
    (same : resource a = resource b) (order : start a ≤ start b)
    (lengths : finish b ≤ start b → finish a ≤ start a) : finish a ≤ start b := by
  rcases h.one_first distinct ha hb same with first | first
  · exact first
  · by_cases empty : finish b ≤ start b
    · exact Nat.le_trans (lengths empty) order
    · omega

end Booked

/-- The parts of a log that come one after the other inside a window fit into it. -/
theorem sum_lengths_le {log : List ρ} {first last : Nat}
    (apart : log.Pairwise fun later earlier => finish earlier ≤ start later)
    (inside : ∀ r ∈ log, first ≤ start r ∧ start r ≤ finish r ∧ finish r ≤ last) :
    (log.map fun r => finish r - start r).sum ≤ last - first := by
  induction log generalizing last with
  | nil => exact Nat.zero_le _
  | cons r rest ih =>
      obtain ⟨after, forward, before⟩ := inside r List.mem_cons_self
      obtain ⟨ends, apart⟩ := List.pairwise_cons.mp apart
      have earlier := ih apart fun e he =>
        have here := inside e (List.mem_cons_of_mem r he)
        ⟨here.1, here.2.1, ends e he⟩
      rw [List.map_cons, List.sum_cons]
      omega

/-- The reservations of one resource inside a window fit into it. -/
theorem Booked.sum_lengths_le [DecidableEq β] {readyAt : β → Nat} {log : List ρ}
    (h : Booked resource start finish readyAt log) (forward : ∀ r ∈ log, start r ≤ finish r)
    (b : β) (first last : Nat) :
    ((log.filter fun r => resource r = b ∧ first ≤ start r ∧ finish r ≤ last).map fun r =>
      finish r - start r).sum ≤ last - first := by
  refine Lib.sum_lengths_le ?_ fun r hr => ?_
  · refine (h.apart.filter _).imp_of_mem fun later earlier ends => ends ?_
    have here := (of_decide_eq_true (List.mem_filter.mp later).2).1
    have there := (of_decide_eq_true (List.mem_filter.mp earlier).2).1
    exact there.trans here.symm
  · obtain ⟨mem, -, after, before⟩ := by simpa using hr
    exact ⟨after, forward r mem, before⟩

end HbmSim.Lib
