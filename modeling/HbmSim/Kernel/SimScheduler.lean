import HbmSim.Kernel.Loop
import Mathlib.Data.Set.Insert

/-!
The scheduler interface (`sim_scheduler.h`).

A scheduler holds the events of all components that are attached to it. Of an
implementation the interface promises that `schedule_at` runs no callback, that tokens are
unique, and that `cancel` takes off the pending event of a token and nothing else. The
reference event queue is an implementation.
-/

namespace HbmSim

/-- A pending event. -/
structure Pending (κ : Type) where
  time : Nat
  token : Nat
  callback : κ
deriving DecidableEq, Repr

/-- An implementation of `ISimScheduler`. Running its events is its own business: `dispatches`
are the states it takes an event off in, and `passes` its changes of the clock. -/
structure SimScheduler (κ : Type) where
  State : Type
  initial : State
  scheduleAt : State → Nat → κ → Except HbmError (Nat × State)
  cancel : State → Nat → Bool × State
  dispatches : State → Pending κ → State → Prop
  passes : State → State → Prop
  /-- The pending events, in the order they run. -/
  pending : State → List (Pending κ)
  /-- The tokens handed out so far. -/
  issued : State → Set Nat
  initial_pending : pending initial = []
  scheduleAt_pending : ∀ {s at_ callback token t}, scheduleAt s at_ callback = .ok (token, t) →
    ∃ before after, pending s = before ++ after ∧
      pending t = before ++ ⟨at_, token, callback⟩ :: after
  scheduleAt_issued : ∀ {s at_ callback token t}, scheduleAt s at_ callback = .ok (token, t) →
    token ∉ issued s ∧ issued t = insert token (issued s)
  cancel_pending : ∀ s token,
    pending (cancel s token).2 = (pending s).filter fun e => decide (e.token ≠ token)
  cancel_found : ∀ s token, (cancel s token).1 = true ↔ ∃ e ∈ pending s, e.token = token
  cancel_issued : ∀ s token, issued (cancel s token).2 = issued s
  dispatches_pending : ∀ {s e t}, dispatches s e t → pending s = e :: pending t
  dispatches_issued : ∀ {s e t}, dispatches s e t → issued t = issued s
  passes_pending : ∀ {s t}, passes s t → pending t = pending s
  passes_issued : ∀ {s t}, passes s t → issued t = issued s

/-! ### The reference queue -/

namespace EventQueue

open HbmSim.Lib

variable {κ : Type} {q : EventQueue κ}

/-- A queue as its own operations leave it. -/
structure Kept (q : EventQueue κ) : Prop where
  ordered : q.Ordered
  paired : q.Paired

theorem kept_empty : ({} : EventQueue κ).Kept :=
  ⟨⟨.nil, by simp, by simp⟩, ⟨.refl _, .nil, by simp⟩⟩

theorem Kept.emplace (kept : q.Kept) {at_ : Nat} (future : q.now ≤ at_) (callback : κ) :
    (q.emplace at_ callback).Kept :=
  ⟨kept.ordered.emplace future callback, kept.paired.emplace at_ callback⟩

theorem Kept.cancel (kept : q.Kept) (token : Nat) : (q.cancel token).2.Kept := by
  rcases cancel_cases kept.ordered kept.paired token with
    ⟨event, mem, -, -, perm, sub, left⟩ | ⟨-, none⟩
  · rw [left]
    exact ⟨kept.ordered.thin sub _, kept.paired.remove perm q.now⟩
  · rw [none]
    exact kept

/-- The queue without its first event. -/
def without (q : EventQueue κ) (event : Event κ) (rest : List (Event κ)) : EventQueue κ :=
  { q with
    now := event.time
    events := rest
    tokens := q.tokens.filter fun t => decide (t.1 ≠ event.token) }

theorem takeNext_cons {event : Event κ} {rest : List (Event κ)} (next : q.events = event :: rest) :
    q.takeNext = some (event, q.without event rest) := by
  unfold takeNext
  rw [next]
  rfl

theorem Kept.take (kept : q.Kept) {event : Event κ} {rest : List (Event κ)}
    (next : q.events = event :: rest) : (q.without event rest).Kept :=
  ⟨kept.ordered.take next _, kept.paired.remove (next ▸ .refl _) event.time⟩

theorem Kept.advance (kept : q.Kept) {until_ : Nat} (nothing : ∀ e ∈ q.events, until_ < e.time) :
    ({ q with now := until_ } : EventQueue κ).Kept :=
  ⟨kept.ordered.advance nothing, kept.paired.paired, kept.paired.distinct, kept.paired.issued⟩

/-- `cancel` takes off the event of its token. -/
theorem Kept.cancel_events (kept : q.Kept) (token : Nat) :
    (q.cancel token).2.events = q.events.filter fun e => decide (e.token ≠ token) := by
  rcases cancel_cases kept.ordered kept.paired token with
    ⟨event, mem, rfl, -, perm, sub, -⟩ | ⟨absent, none⟩
  · have distinct := List.nodup_cons.mp ((perm.map (·.token)).nodup_iff.mp kept.paired.distinct)
    have others : ∀ e ∈ (q.cancel event.token).2.events, decide (e.token ≠ event.token) = true :=
      fun e he => decide_eq_true fun same => distinct.1 (List.mem_map.mpr ⟨e, he, same⟩)
    have within := sub.filter fun e => decide (e.token ≠ event.token)
    rw [List.filter_eq_self.mpr others] at within
    refine within.eq_of_length ?_
    have counted := (perm_cons_filter (f := (·.token)) kept.paired.distinct mem).length_eq
    have count := perm.length_eq
    simp only [List.length_cons] at counted count
    omega
  · rw [none]
    exact (List.filter_eq_self.mpr fun e he => decide_eq_true (absent e he)).symm

theorem Kept.cancel_found (kept : q.Kept) (token : Nat) :
    (q.cancel token).1 = true ↔ ∃ e ∈ q.events, e.token = token := by
  rcases cancel_cases kept.ordered kept.paired token with
    ⟨event, mem, same, found, -⟩ | ⟨absent, none⟩
  · exact iff_of_true found ⟨event, mem, same⟩
  · rw [none]
    exact iff_of_false Bool.false_ne_true fun ⟨e, he, same⟩ => absent e he same

theorem cancel_nextToken (q : EventQueue κ) (token : Nat) :
    (q.cancel token).2.nextToken = q.nextToken := by
  unfold EventQueue.cancel
  split <;> rfl

/-- An event as the interface shows it. -/
def shown (e : Event κ) : Pending κ := ⟨e.time, e.token, e.callback⟩

theorem emplaceEvent_split (e : Event κ) (events : List (Event κ)) :
    ∃ before after, events = before ++ after ∧ emplaceEvent e events = before ++ e :: after := by
  induction events with
  | nil => exact ⟨[], [], rfl, rfl⟩
  | cons first rest ih =>
      unfold emplaceEvent
      split
      · exact ⟨[], first :: rest, rfl, rfl⟩
      · obtain ⟨before, after, split, placed⟩ := ih
        exact ⟨first :: before, after, congrArg _ split, congrArg _ placed⟩

/-- `EventQueue` implements `ISimScheduler`. -/
def simScheduler (κ : Type) : SimScheduler κ where
  State := { q : EventQueue κ // q.Kept }
  initial := ⟨{}, kept_empty⟩
  scheduleAt q at_ callback :=
    if past : at_ < q.1.now then .error (.invalidArgument "cannot schedule an event in the past")
    else .ok (q.1.nextToken, ⟨q.1.emplace at_ callback, q.2.emplace (Nat.not_lt.mp past) callback⟩)
  cancel q token := ((q.1.cancel token).1, ⟨(q.1.cancel token).2, q.2.cancel token⟩)
  dispatches q e t := ∃ event, q.1.takeNext = some (event, t.1) ∧ shown event = e
  passes q t := ∃ until_, q.1.now ≤ until_ ∧ (∀ e ∈ q.1.events, until_ < e.time) ∧
    t.1 = { q.1 with now := until_ }
  pending q := q.1.events.map shown
  issued q := { token | token < q.1.nextToken }
  initial_pending := rfl
  scheduleAt_pending := by
    intro q at_ callback token t run
    split at run
    · cases run
    · cases run
      obtain ⟨before, after, split, placed⟩ :=
        emplaceEvent_split ⟨at_, q.1.nextSequence, q.1.nextToken, callback⟩ q.1.events
      refine ⟨before.map shown, after.map shown, ?_, ?_⟩
      · rw [split, List.map_append]
      · show (emplaceEvent _ q.1.events).map shown = _
        rw [placed, List.map_append]
        rfl
  scheduleAt_issued := by
    intro q at_ callback token t run
    split at run
    · cases run
    · cases run
      refine ⟨Nat.lt_irrefl _, Set.ext fun token => ?_⟩
      show token < q.1.nextToken + 1 ↔ token = q.1.nextToken ∨ token < q.1.nextToken
      omega
  cancel_pending q token := by
    show (q.1.cancel token).2.events.map shown = (q.1.events.map shown).filter _
    rw [q.2.cancel_events, List.filter_map]
    rfl
  cancel_found q token := by
    refine (q.2.cancel_found token).trans ⟨fun ⟨e, he, same⟩ => ?_, fun ⟨e, he, same⟩ => ?_⟩
    · exact ⟨shown e, List.mem_map_of_mem he, same⟩
    · obtain ⟨event, mem, rfl⟩ := List.mem_map.mp he
      exact ⟨event, mem, same⟩
  cancel_issued q token := by
    show { t | t < (q.1.cancel token).2.nextToken } = _
    rw [cancel_nextToken]
  dispatches_pending := by
    rintro q e t ⟨event, take, rfl⟩
    obtain ⟨rest, events, after⟩ := takeNext_some take
    rw [events, after]
    rfl
  dispatches_issued := by
    rintro q e t ⟨event, take, rfl⟩
    obtain ⟨rest, -, after⟩ := takeNext_some take
    rw [after]
  passes_pending := by
    rintro q t ⟨until_, -, -, after⟩
    rw [after]
  passes_issued := by
    rintro q t ⟨until_, -, -, after⟩
    rw [after]

end EventQueue

end HbmSim
