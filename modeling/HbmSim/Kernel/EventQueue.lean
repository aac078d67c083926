import HbmSim.Types

/-!
The reference event queue (`event_queue.h`, `event_queue.cpp`), over any type
of callbacks. `std::map<Key, Event>` is the list of its events in key order,
and `tokens_` an association list from tokens to keys.
-/

namespace HbmSim

structure Event (κ : Type) where
  time : Nat
  sequence : Nat
  token : Nat
  callback : κ
deriving DecidableEq, Repr

structure EventQueue (κ : Type) where
  now : Nat := 0
  nextSequence : Nat := 0
  nextToken : Nat := 1
  events : List (Event κ) := []
  tokens : List (Nat × (Nat × Nat)) := []
deriving Repr

variable {κ : Type}

/-- `Key` order: by time, then by sequence. -/
def Event.before (a b : Event κ) : Prop :=
  a.time < b.time ∨ (a.time = b.time ∧ a.sequence < b.sequence)

instance (a b : Event κ) : Decidable (a.before b) := by
  unfold Event.before; infer_instance

/-- `events_.emplace`: insert an event at its place in key order. -/
def emplaceEvent (e : Event κ) : List (Event κ) → List (Event κ)
  | [] => [e]
  | f :: rest => if e.before f then e :: f :: rest else f :: emplaceEvent e rest

namespace EventQueue

/-- The queue after `schedule_at` accepted an event. -/
def emplace (q : EventQueue κ) (at_ : Nat) (callback : κ) : EventQueue κ :=
  { q with
    nextToken := q.nextToken + 1
    nextSequence := q.nextSequence + 1
    events := emplaceEvent ⟨at_, q.nextSequence, q.nextToken, callback⟩ q.events
    tokens := (q.nextToken, (at_, q.nextSequence)) :: q.tokens }

def scheduleAt (q : EventQueue κ) (at_ : Nat) (callback : κ) :
    Except HbmError (Nat × EventQueue κ) :=
  if at_ < q.now then .error (.invalidArgument "cannot schedule an event in the past")
  else .ok (q.nextToken, q.emplace at_ callback)

def cancel (q : EventQueue κ) (token : Nat) : Bool × EventQueue κ :=
  match q.tokens.lookup token with
  | none => (false, q)
  | some key =>
      (true, { q with
        events := q.events.filter fun e => decide ((e.time, e.sequence) ≠ key)
        tokens := q.tokens.filter fun t => decide (t.1 ≠ token) })

/-- The first half of `dispatch_one`: take the first event off and move the
clock to its time. -/
def takeNext (q : EventQueue κ) : Option (Event κ × EventQueue κ) :=
  match q.events with
  | [] => none
  | e :: rest =>
      some (e, { q with
        now := e.time
        events := rest
        tokens := q.tokens.filter fun t => decide (t.1 ≠ e.token) })

end EventQueue

/-! ### Events in key order -/

theorem emplaceEvent_perm (e : Event κ) :
    ∀ es : List (Event κ), (emplaceEvent e es).Perm (e :: es)
  | [] => .refl _
  | f :: rest => by
      unfold emplaceEvent
      split
      · exact .refl _
      · exact ((emplaceEvent_perm e rest).cons f).trans (.swap e f rest)

@[simp] theorem mem_emplaceEvent {e f : Event κ} {es : List (Event κ)} :
    f ∈ emplaceEvent e es ↔ f = e ∨ f ∈ es := by
  rw [(emplaceEvent_perm e es).mem_iff, List.mem_cons]

theorem Event.before_trans {a b c : Event κ} (hab : a.before b) (hbc : b.before c) :
    a.before c := by
  unfold Event.before at *
  omega

/-- Inserting an event with a fresh sequence number keeps the key order. -/
theorem emplaceEvent_sorted {e : Event κ} {es : List (Event κ)}
    (sorted : es.Pairwise Event.before) (fresh : ∀ f ∈ es, f.sequence ≠ e.sequence) :
    (emplaceEvent e es).Pairwise Event.before := by
  induction es with
  | nil => simp [emplaceEvent]
  | cons f rest ih =>
      have hsorted := List.pairwise_cons.mp sorted
      have hfresh : ∀ g ∈ rest, g.sequence ≠ e.sequence :=
        fun g hg => fresh g (List.mem_cons_of_mem f hg)
      unfold emplaceEvent
      split
      · rename_i hbefore
        refine List.pairwise_cons.mpr ⟨fun g hg => ?_, sorted⟩
        rcases List.mem_cons.mp hg with rfl | hg
        · exact hbefore
        · exact Event.before_trans hbefore (hsorted.1 g hg)
      · rename_i hbefore
        refine List.pairwise_cons.mpr ⟨fun g hg => ?_, ih hsorted.2 hfresh⟩
        rcases mem_emplaceEvent.mp hg with rfl | hg
        · have := fresh f List.mem_cons_self
          unfold Event.before at hbefore ⊢
          omega
        · exact hsorted.1 g hg

/-! ### The invariant of the queue -/

namespace EventQueue

/-- Events are in key order, numbered below the next sequence number, and not in
the past. -/
structure Ordered (q : EventQueue κ) : Prop where
  sorted : q.events.Pairwise Event.before
  numbered : ∀ e ∈ q.events, e.sequence < q.nextSequence
  future : ∀ e ∈ q.events, q.now ≤ e.time

theorem Ordered.emplace {q : EventQueue κ} (h : q.Ordered) {at_ : Nat} (future : q.now ≤ at_)
    (callback : κ) : (q.emplace at_ callback).Ordered where
  sorted := emplaceEvent_sorted h.sorted fun f hf => Nat.ne_of_lt (h.numbered f hf)
  numbered e he := by
    rcases mem_emplaceEvent.mp he with rfl | he
    · exact Nat.lt_succ_self _
    · exact Nat.lt_succ_of_lt (h.numbered e he)
  future e he := by
    rcases mem_emplaceEvent.mp he with rfl | he
    · exact future
    · exact h.future e he

/-- Taking the first event off moves the clock to a time no later than any other
event's. -/
theorem Ordered.take {q : EventQueue κ} (h : q.Ordered) {event : Event κ}
    {rest : List (Event κ)} (next : q.events = event :: rest) (tokens : List (Nat × (Nat × Nat))) :
    ({ q with now := event.time, events := rest, tokens := tokens } : EventQueue κ).Ordered := by
  have hsorted := h.sorted
  rw [next] at hsorted
  have first := List.pairwise_cons.mp hsorted
  refine ⟨first.2, fun e he => ?_, fun e he => ?_⟩
  · exact h.numbered e (next ▸ List.mem_cons_of_mem _ he)
  · have hbefore := first.1 e he
    unfold Event.before at hbefore
    show event.time ≤ e.time
    omega

theorem Ordered.advance {q : EventQueue κ} (h : q.Ordered) {until_ : Nat}
    (nothing : ∀ e ∈ q.events, until_ < e.time) :
    ({ q with now := until_ } : EventQueue κ).Ordered :=
  ⟨h.sorted, h.numbered, fun e he => Nat.le_of_lt (nothing e he)⟩

end EventQueue

/-! ### Queues of other callbacks -/

section

variable {κ κ' : Type} (f : κ → κ')

def Event.map (e : Event κ) : Event κ' := ⟨e.time, e.sequence, e.token, f e.callback⟩

/-- The queue with every callback replaced. -/
def EventQueue.map (q : EventQueue κ) : EventQueue κ' :=
  { now := q.now
    nextSequence := q.nextSequence
    nextToken := q.nextToken
    events := q.events.map (Event.map f)
    tokens := q.tokens }

theorem emplaceEvent_map (e : Event κ) (es : List (Event κ)) :
    emplaceEvent (e.map f) (es.map (Event.map f)) = (emplaceEvent e es).map (Event.map f) := by
  induction es with
  | nil => rfl
  | cons first rest ih =>
      simp only [List.map_cons, emplaceEvent, ih]
      by_cases before : e.before first
      · rw [if_pos before]
        exact if_pos before
      · rw [if_neg before]
        exact if_neg before

theorem EventQueue.emplace_map (q : EventQueue κ) (at_ : Nat) (callback : κ) :
    (q.map f).emplace at_ (f callback) = (q.emplace at_ callback).map f := by
  unfold emplace map
  dsimp only
  rw [← emplaceEvent_map]
  rfl

theorem EventQueue.scheduleAt_map (q : EventQueue κ) (at_ : Nat) (callback : κ) :
    (q.map f).scheduleAt at_ (f callback) =
      (fun r => (r.1, r.2.map f)) <$> q.scheduleAt at_ callback := by
  unfold scheduleAt
  by_cases past : at_ < q.now
  · rw [if_pos past]
    exact if_pos past
  · rw [if_neg past]
    exact (if_neg past).trans
      (congrArg (fun q' => Except.ok (q.nextToken, q')) (q.emplace_map f at_ callback))

theorem EventQueue.takeNext_map (q : EventQueue κ) :
    (q.map f).takeNext = q.takeNext.map fun r => (r.1.map f, r.2.map f) := by
  unfold takeNext map
  cases q.events <;> rfl

end

end HbmSim
