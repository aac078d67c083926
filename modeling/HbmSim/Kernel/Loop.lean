import HbmSim.Kernel.EventQueue
import HbmSim.Lib.Lists

/-!
Running the event queue (`run_next`, `run_until`, `run`).

The queue is run by its client, and callbacks run inside. Control is in the client, at the
test of a loop or in the callback of a dispatched event; the client and callbacks schedule
and cancel as they please, and a callback may end in an exception, which leaves the loop.
-/

namespace HbmSim

open HbmSim.Lib

variable {κ : Type}

/-- The calls that run the queue. -/
inductive RunCall where
  | runNext
  | run
  | runUntil (until_ : Nat)
deriving DecidableEq, Repr

/-- Where control is. -/
inductive Control (κ : Type) where
  | client
  | loop (call : RunCall)
  | callback (call : RunCall) (event : Event κ)

/-- Control is in code that may schedule and cancel. -/
def Control.acts : Control κ → Bool
  | .loop _ => false
  | .client | .callback _ _ => true

/-- What has been done with a queue. -/
inductive Deed (κ : Type) where
  | scheduled (event : Event κ)
  | refused (at_ : Nat)
  | cancelled (token : Nat) (found : Bool)
  | dispatched (event : Event κ)
  | returned (call : RunCall)
  | threw

/-- A queue, the code that uses it, and what has been done with it, latest first. -/
structure Session (κ : Type) where
  queue : EventQueue κ := {}
  control : Control κ := .client
  history : List (Deed κ) := []

namespace RunCall

/-- The test before `dispatch_one`. -/
def continues (q : EventQueue κ) : RunCall → Bool
  | .runNext | .run => !q.events.isEmpty
  | .runUntil until_ =>
      match q.events with
      | [] => false
      | event :: _ => decide (event.time ≤ until_)

/-- `run_until` refuses to go back. -/
def refused (q : EventQueue κ) : RunCall → Bool
  | .runNext | .run => false
  | .runUntil until_ => decide (until_ < q.now)

/-- What a call leaves when its loop ends. -/
def finish (q : EventQueue κ) : RunCall → EventQueue κ
  | .runNext | .run => q
  | .runUntil until_ => { q with now := until_ }

/-- `run_next` dispatches once, the other calls loop. -/
def loops : RunCall → Bool
  | .runNext => false
  | .run | .runUntil _ => true

end RunCall

namespace Session

/-- One step of the queue or of the code that uses it. -/
inductive Step : Session κ → Session κ → Prop where
  | schedule {q q' : EventQueue κ} {c : Control κ} {h : List (Deed κ)} {token : Nat}
      (at_ : Nat) (callback : κ) : c.acts = true → q.scheduleAt at_ callback = .ok (token, q') →
      Step ⟨q, c, h⟩ ⟨q', c, .scheduled ⟨at_, q.nextSequence, token, callback⟩ :: h⟩
  | refuse {q : EventQueue κ} {c : Control κ} {h : List (Deed κ)} {e : HbmError}
      (at_ : Nat) (callback : κ) : c.acts = true → q.scheduleAt at_ callback = .error e →
      Step ⟨q, c, h⟩ ⟨q, c, .refused at_ :: h⟩
  | cancel {q : EventQueue κ} {c : Control κ} {h : List (Deed κ)} (token : Nat) :
      c.acts = true →
      Step ⟨q, c, h⟩ ⟨(q.cancel token).2, c, .cancelled token (q.cancel token).1 :: h⟩
  | call {q : EventQueue κ} {h : List (Deed κ)} (call : RunCall) : call.refused q = false →
      Step ⟨q, .client, h⟩ ⟨q, .loop call, h⟩
  | backwards {q : EventQueue κ} {h : List (Deed κ)} (call : RunCall) : call.refused q = true →
      Step ⟨q, .client, h⟩ ⟨q, .client, .threw :: h⟩
  | dispatch {q q' : EventQueue κ} {h : List (Deed κ)} {call : RunCall} {event : Event κ} :
      call.continues q = true → q.takeNext = some (event, q') →
      Step ⟨q, .loop call, h⟩ ⟨q', .callback call event, .dispatched event :: h⟩
  | finish {q : EventQueue κ} {h : List (Deed κ)} {call : RunCall} : call.continues q = false →
      Step ⟨q, .loop call, h⟩ ⟨call.finish q, .client, .returned call :: h⟩
  | again {q : EventQueue κ} {h : List (Deed κ)} {call : RunCall} {event : Event κ} :
      call.loops = true → Step ⟨q, .callback call event, h⟩ ⟨q, .loop call, h⟩
  | once {q : EventQueue κ} {h : List (Deed κ)} {call : RunCall} {event : Event κ} :
      call.loops = false →
      Step ⟨q, .callback call event, h⟩ ⟨q, .client, .returned call :: h⟩
  | throw {q : EventQueue κ} {h : List (Deed κ)} {call : RunCall} {event : Event κ} :
      Step ⟨q, .callback call event, h⟩ ⟨q, .client, .threw :: h⟩

/-- The sessions of a fresh queue. -/
inductive Reachable : Session κ → Prop where
  | create : Reachable {}
  | step {s t : Session κ} : Reachable s → Step s t → Reachable t

end Session

/-! ### What a history tells -/

/-- The events that were scheduled, latest first. -/
def scheduledEvents (h : List (Deed κ)) : List (Event κ) :=
  h.filterMap fun
    | .scheduled event => some event
    | _ => none

/-- The events that were dispatched, latest first. -/
def dispatchedEvents (h : List (Deed κ)) : List (Event κ) :=
  h.filterMap fun
    | .dispatched event => some event
    | _ => none

/-- The tokens that were cancelled, latest first. -/
def cancelledTokens (h : List (Deed κ)) : List Nat :=
  h.filterMap fun
    | .cancelled token true => some token
    | _ => none

namespace EventQueue

/-- The entry of an event in `tokens_`. -/
def entry (e : Event κ) : Nat × (Nat × Nat) := (e.token, (e.time, e.sequence))

/-- `events_` and `tokens_` hold the same events, each under its own token. -/
structure Paired (q : EventQueue κ) : Prop where
  paired : q.tokens.Perm (q.events.map entry)
  distinct : (q.events.map (·.token)).Nodup
  issued : ∀ e ∈ q.events, e.token < q.nextToken

variable {q : EventQueue κ}

theorem Paired.mem (h : q.Paired) {token : Nat} {key : Nat × Nat} :
    (token, key) ∈ q.tokens ↔
      ∃ e ∈ q.events, e.token = token ∧ (e.time, e.sequence) = key := by
  rw [h.paired.mem_iff, List.mem_map]
  simp only [entry, Prod.mk.injEq]

theorem Paired.tokens_nodup (h : q.Paired) : (q.tokens.map (·.1)).Nodup := by
  have perm := h.paired.map (·.1)
  rw [List.map_map] at perm
  exact perm.nodup_iff.mpr h.distinct

theorem Paired.emplace (h : q.Paired) (at_ : Nat) (callback : κ) :
    (q.emplace at_ callback).Paired where
  paired := by
    have perm := (emplaceEvent_perm ⟨at_, q.nextSequence, q.nextToken, callback⟩ q.events).map entry
    exact (h.paired.cons _).trans perm.symm
  distinct := by
    have perm := (emplaceEvent_perm ⟨at_, q.nextSequence, q.nextToken, callback⟩ q.events).map
      (·.token)
    refine perm.nodup_iff.mpr (List.nodup_cons.mpr ⟨fun mem => ?_, h.distinct⟩)
    obtain ⟨e, he, same⟩ := List.mem_map.mp mem
    exact absurd same (Nat.ne_of_lt (h.issued e he))
  issued e he := by
    rcases mem_emplaceEvent.mp he with rfl | he
    · exact Nat.lt_succ_self _
    · exact Nat.lt_succ_of_lt (h.issued e he)

/-- Taking an event and its token off keeps the rest paired. -/
theorem Paired.remove (h : q.Paired) {event : Event κ} {rest : List (Event κ)}
    (perm : q.events.Perm (event :: rest)) (now : Nat) :
    ({ q with
      now := now
      events := rest
      tokens := q.tokens.filter fun t => decide (t.1 ≠ event.token) } : EventQueue κ).Paired where
  paired := by
    have mem : entry event ∈ q.tokens :=
      h.paired.mem_iff.mpr (List.mem_map_of_mem (perm.mem_iff.mpr List.mem_cons_self))
    have tokens := perm_cons_filter (f := (·.1)) h.tokens_nodup mem
    exact (tokens.symm.trans (h.paired.trans (perm.map entry))).cons_inv
  distinct := (List.nodup_cons.mp ((perm.map (·.token)).nodup_iff.mp h.distinct)).2
  issued e he := h.issued e (perm.mem_iff.mpr (List.mem_cons_of_mem _ he))

/-- Keys are distinct. -/
theorem Ordered.keys_nodup (h : q.Ordered) :
    (q.events.map fun e => (e.time, e.sequence)).Nodup := by
  refine List.pairwise_map.mpr (h.sorted.imp ?_)
  intro a b before same
  obtain ⟨time, sequence⟩ := Prod.mk.inj same
  unfold Event.before at before
  omega

theorem Ordered.thin (h : q.Ordered) {rest : List (Event κ)} (sub : rest.Sublist q.events)
    (tokens : List (Nat × (Nat × Nat))) :
    ({ q with events := rest, tokens := tokens } : EventQueue κ).Ordered :=
  ⟨h.sorted.sublist sub, fun e he => h.numbered e (sub.subset he),
    fun e he => h.future e (sub.subset he)⟩

/-- A successful `cancel` takes the event of the token off, any other changes nothing. -/
theorem cancel_cases (ordered : q.Ordered) (h : q.Paired) (token : Nat) :
    (∃ event ∈ q.events, event.token = token ∧ (q.cancel token).1 = true ∧
      q.events.Perm (event :: (q.cancel token).2.events) ∧
      (q.cancel token).2.events.Sublist q.events ∧
      (q.cancel token).2 = { q with
        events := (q.cancel token).2.events
        tokens := q.tokens.filter fun t => decide (t.1 ≠ event.token) }) ∨
    ((∀ e ∈ q.events, e.token ≠ token) ∧ q.cancel token = (false, q)) := by
  unfold cancel
  cases found : q.tokens.lookup token with
  | none =>
      refine .inr ⟨fun e he same => ?_, rfl⟩
      have absent := List.lookup_eq_none_iff.mp found (token, (e.time, e.sequence))
        (h.mem.mpr ⟨e, he, same, rfl⟩)
      simp at absent
  | some key =>
      obtain ⟨before, after, split, -⟩ := List.lookup_eq_some_iff.mp found
      obtain ⟨event, mem, rfl, rfl⟩ := h.mem.mp (show (token, key) ∈ q.tokens by simp [split])
      exact .inl ⟨event, mem, rfl, rfl,
        perm_cons_filter (f := fun e => (e.time, e.sequence)) ordered.keys_nodup mem,
        List.filter_sublist, rfl⟩

theorem takeNext_some {event : Event κ} {q' : EventQueue κ}
    (take : q.takeNext = some (event, q')) :
    ∃ rest, q.events = event :: rest ∧ q' = { q with
      now := event.time
      events := rest
      tokens := q.tokens.filter fun t => decide (t.1 ≠ event.token) } := by
  unfold takeNext at take
  cases events : q.events with
  | nil =>
      rw [events] at take
      cases take
  | cons first rest =>
      rw [events] at take
      cases take
      exact ⟨rest, rfl, rfl⟩

/-- When the loop of `run_until` ends, everything pending is later. -/
theorem later_of_not_continues (ordered : q.Ordered) {until_ : Nat}
    (ends : (RunCall.runUntil until_).continues q = false) : ∀ e ∈ q.events, until_ < e.time := by
  unfold RunCall.continues at ends
  have sorted := ordered.sorted
  cases events : q.events with
  | nil => simp
  | cons first rest =>
      rw [events] at ends sorted
      have late : until_ < first.time := by simpa using ends
      refine List.forall_mem_cons.mpr ⟨late, fun e he => ?_⟩
      have before := (List.pairwise_cons.mp sorted).1 e he
      unfold Event.before at before
      omega

end EventQueue

end HbmSim
