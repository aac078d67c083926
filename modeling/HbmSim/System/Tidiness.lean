import HbmSim.System.Ensemble
import Mathlib.Data.List.Nodup

/-!
Every token is accounted for.

A living system holds the tokens of its events the scheduler still has to run, every such
event belongs to a living system or to another component, and what was scheduled is pending,
dispatched or cancelled.
-/

namespace HbmSim

namespace Ensemble

variable {β : Type} {S : SimScheduler (Closure β)}

/-! ### The tokens of the systems -/

/-- The events whose closures have not run: the pending ones and the one just dispatched. -/
def awaiting (w : Ensemble S) : List (Pending (Closure β)) :=
  w.phase.event?.toList ++ S.pending w.scheduler

/-- The tokens of a system's events among some. -/
def tokensOf (id : Nat) (events : List (Pending (Closure β))) : List Nat :=
  (events.filter fun e => e.callback.owner = some id).map (·.token)

/-- Every token is accounted for: by the system that scheduled its event, by the scheduler
that holds the event, and by what has happened to it. A system that is being destroyed no
longer counts its own. -/
structure Tidy (dying : Option Nat) (w : Ensemble S) : Prop where
  exact_ : ∀ id tokens, dying ≠ some id → w.systems id = some tokens →
    tokens.Perm (tokensOf id w.awaiting)
  living : ∀ e ∈ w.awaiting, ∀ id cell body, e.callback = .system id cell body →
    (∃ tokens, w.systems id = some tokens) ∧ w.cells cell = e.token ∧ cell < w.nextCell
  distinct : (w.awaiting.map (·.token)).Nodup
  issued : ∀ o ∈ w.history, ∀ token, o.token = some token → token ∈ S.issued w.scheduler
  known : ∀ e ∈ w.awaiting, .scheduled e.callback.owner e.token ∈ w.history
  unspent : ∀ e ∈ S.pending w.scheduler,
    (∀ owner, .dispatched owner e.token ∉ w.history) ∧ .cancelled e.token ∉ w.history
  spent : ∀ owner token, .scheduled owner token ∈ w.history →
    (∃ e ∈ S.pending w.scheduler, e.token = token ∧ e.callback.owner = owner) ∨
      .dispatched owner token ∈ w.history ∨ .cancelled token ∈ w.history
  fresh : ∀ id, w.nextSystem ≤ id → w.systems id = none
  gone : ∀ id, .destroyed id ∈ w.history → w.systems id = none ∧ id < w.nextSystem

section

variable {w w' : Ensemble S} {id token at_ : Nat} {callback : Closure β} {t : S.State}
  {tokens : List Nat} {event : Pending (Closure β)} {dying : Option Nat}

/-- Between callbacks the awaited events are the pending ones. -/
theorem awaiting_of_acts (acts : w.phase.acts = true) : w.awaiting = S.pending w.scheduler := by
  unfold awaiting
  cases phase : w.phase with
  | entering event =>
      rw [phase] at acts
      cases acts
  | outside => rfl
  | inside owner => rfl

/-- The tokens of a system are those of its events. -/
theorem mem_tokensOf {events : List (Pending (Closure β))} :
    token ∈ tokensOf id events ↔ ∃ e ∈ events, e.callback.owner = some id ∧ e.token = token := by
  unfold tokensOf
  simp only [List.mem_map, List.mem_filter, decide_eq_true_eq, and_assoc]

theorem tokensOf_cons (event : Pending (Closure β)) (events : List (Pending (Closure β))) :
    tokensOf id (event :: events) =
      if event.callback.owner = some id then event.token :: tokensOf id events
      else tokensOf id events := by
  unfold tokensOf
  split
  · rename_i own
    simp [own]
  · rename_i foreign
    simp [foreign]

/-- Taking off an event of another owner leaves a system its tokens. -/
theorem tokensOf_filter {events : List (Pending (Closure β))}
    (foreign : ∀ e ∈ events, e.callback.owner = some id → e.token ≠ token) :
    tokensOf id (events.filter fun e => decide (e.token ≠ token)) = tokensOf id events := by
  unfold tokensOf
  rw [List.filter_filter]
  refine congrArg (List.map _) (List.filter_congr fun e he => ?_)
  by_cases own : e.callback.owner = some id
  · simp [own, foreign e he own]
  · simp [own]

theorem tidy_initial : Tidy none ({ scheduler := S.initial } : Ensemble S) := by
  have nothing : ({ scheduler := S.initial } : Ensemble S).awaiting = [] := S.initial_pending
  constructor
  case exact_ => exact fun id tokens _ living => by cases living
  case living => rw [nothing]; exact fun _ he => by cases he
  case distinct => rw [nothing]; exact .nil
  case issued => exact fun _ h => by cases h
  case known => rw [nothing]; exact fun _ he => by cases he
  case unspent => exact fun e _ => ⟨fun _ => List.not_mem_nil, List.not_mem_nil⟩
  case spent => exact fun _ _ h => by cases h
  case fresh => exact fun _ _ => rfl
  case gone => exact fun _ h => by cases h

/-- An event is scheduled, by whomever. -/
theorem Tidy.arrive (tidy : Tidy none w) (acts : w.phase.acts = true)
    (accepted : S.scheduleAt w.scheduler at_ callback = .ok (token, t))
    (scheduler : w'.scheduler = t) (phase : w'.phase = w.phase)
    (history : w'.history = .scheduled callback.owner token :: w.history)
    (nextSystem : w'.nextSystem = w.nextSystem)
    (systems : ∀ id, w'.systems id =
      (w.systems id).map fun tokens => if callback.owner = some id then token :: tokens else tokens)
    (cells : ∀ cell < w.nextCell, w'.cells cell = w.cells cell ∧ cell < w'.nextCell)
    (own : ∀ id cell body, callback = .system id cell body →
      (∃ tokens, w.systems id = some tokens) ∧ w'.cells cell = token ∧ cell < w'.nextCell) :
    Tidy none w' := by
  obtain ⟨before, after, here, there⟩ := S.scheduleAt_pending accepted
  obtain ⟨fresh, issued⟩ := S.scheduleAt_issued accepted
  have acts' : w'.phase.acts = true := phase ▸ acts
  have arrived : w'.awaiting.Perm (⟨at_, token, callback⟩ :: w.awaiting) := by
    rw [awaiting_of_acts acts', awaiting_of_acts acts, scheduler, here, there]
    exact List.perm_middle
  have new : ∀ o ∈ w.history, o.token ≠ some token := fun o ho same =>
    fresh (tidy.issued o ho token same)
  have alive : ∀ {id tokens}, w.systems id = some tokens → ∃ tokens, w'.systems id = some tokens :=
    fun living => by
      rw [systems, living]
      exact ⟨_, rfl⟩
  -- the token is new to the whole history, so it is mistaken for no earlier one
  constructor
  case exact_ =>
    intro id tokens _ living
    rw [systems] at living
    obtain ⟨tokens', held, rfl⟩ := Option.map_eq_some_iff.mp living
    have perm := tidy.exact_ id tokens' (by simp) held
    have moved : (tokensOf id w'.awaiting).Perm
        (tokensOf id (⟨at_, token, callback⟩ :: w.awaiting)) := (arrived.filter _).map _
    refine List.Perm.trans ?_ moved.symm
    rw [tokensOf_cons]
    split
    · exact perm.cons token
    · exact perm
  case living =>
    intro e he id cell body same
    rcases List.mem_cons.mp (arrived.mem_iff.mp he) with rfl | he
    · obtain ⟨⟨tokens, living⟩, holds⟩ := own id cell body same
      exact ⟨alive living, holds⟩
    · obtain ⟨⟨tokens, living⟩, holds, below⟩ := tidy.living e he id cell body same
      obtain ⟨kept, below⟩ := cells cell below
      exact ⟨alive living, kept.trans holds, below⟩
  case distinct =>
    refine (arrived.map (·.token)).nodup_iff.mpr (List.nodup_cons.mpr ⟨fun mem => ?_,
      tidy.distinct⟩)
    obtain ⟨e, he, same⟩ := List.mem_map.mp mem
    exact new _ (tidy.known e he) (congrArg some same)
  case issued =>
    intro o ho token' same
    rw [scheduler, issued]
    rw [history] at ho
    rcases List.mem_cons.mp ho with rfl | ho
    · exact .inl (Option.some.inj same).symm
    · exact .inr (tidy.issued o ho token' same)
  case known =>
    intro e he
    rw [history]
    rcases List.mem_cons.mp (arrived.mem_iff.mp he) with rfl | he
    · exact List.mem_cons_self
    · exact List.mem_cons_of_mem _ (tidy.known e he)
  case unspent =>
    intro e he
    rw [← awaiting_of_acts acts'] at he
    rw [history]
    simp only [List.mem_cons, reduceCtorEq, false_or]
    rcases List.mem_cons.mp (arrived.mem_iff.mp he) with rfl | he
    · exact ⟨fun owner mem => new _ mem rfl, fun mem => new _ mem rfl⟩
    · exact tidy.unspent e (awaiting_of_acts acts ▸ he)
  case spent =>
    intro owner token' mem
    rw [← awaiting_of_acts acts', history]
    rw [history] at mem
    simp only [List.mem_cons, reduceCtorEq, false_or]
    rcases List.mem_cons.mp mem with same | mem
    · cases same
      exact .inl ⟨_, arrived.mem_iff.mpr List.mem_cons_self, rfl, rfl⟩
    · refine (tidy.spent owner token' mem).imp_left fun ⟨e, he, holds⟩ => ⟨e, ?_, holds⟩
      rw [← awaiting_of_acts acts] at he
      exact arrived.mem_iff.mpr (List.mem_cons_of_mem _ he)
  case fresh =>
    intro id bound
    rw [systems, tidy.fresh id (nextSystem ▸ bound)]
    rfl
  case gone =>
    intro id mem
    rw [history] at mem
    rcases List.mem_cons.mp mem with same | mem
    · cases same
    · rw [systems, nextSystem, (tidy.gone id mem).1]
      exact ⟨rfl, (tidy.gone id mem).2⟩

/-- A system schedules an event and keeps its token. -/
theorem Tidy.scheduleEvent {body : β} (tidy : Tidy none w) (acts : w.phase.acts = true)
    (living : w.systems id = some tokens)
    (accepted : S.scheduleAt w.scheduler at_ (w.closure id body) = .ok (token, t)) :
    Tidy none (w.scheduleEvent id token t) := by
  refine tidy.arrive acts accepted rfl rfl rfl rfl (fun i => ?_) (fun cell below => ?_) ?_
  · show (if i = id then (w.systems i).map (token :: ·) else w.systems i) = _
    by_cases own : i = id
    · subst own
      rw [if_pos rfl]
      exact congrArg (fun f => Option.map f (w.systems i)) (funext fun tokens => (if_pos rfl).symm)
    · rw [if_neg own]
      have foreign : ∀ tokens : List Nat,
          (if (w.closure id body).owner = some i then token :: tokens else tokens) = tokens :=
        fun tokens => if_neg fun same => own (Option.some.inj same).symm
      simp only [foreign, Option.map_id']
  · exact ⟨if_neg (Nat.ne_of_lt below), Nat.lt_succ_of_lt below⟩
  · rintro i cell body' same
    cases same
    exact ⟨⟨tokens, living⟩, if_pos rfl, Nat.lt_succ_self _⟩

/-- Another component schedules an event. -/
theorem Tidy.scheduleAt {body : β} (tidy : Tidy none w) (acts : w.phase.acts = true)
    (accepted : S.scheduleAt w.scheduler at_ (.component body) = .ok (token, t)) :
    Tidy none (w.scheduleAt token t) := by
  refine tidy.arrive acts accepted rfl rfl rfl rfl (fun i => ?_) (fun cell below => ⟨rfl, below⟩) ?_
  · have foreign : ∀ tokens : List Nat,
        (if (Closure.component body).owner = some i then token :: tokens else tokens) = tokens :=
      fun tokens => if_neg fun same => by cases same
    simp only [foreign, Option.map_id']
    rfl
  · rintro i cell body' same
    cases same

/-- A cancellation is recorded if it removed an event. -/
theorem cancel_history (w : Ensemble S) (token : Nat) :
    (w.cancel token).history =
      if (S.cancel w.scheduler token).1 then .cancelled token :: w.history else w.history := by
  unfold Ensemble.cancel
  dsimp only
  split <;> rfl

/-- What a cancellation leaves alone. -/
theorem cancel_frame (w : Ensemble S) (token : Nat) :
    w.cancel token = { w with
      scheduler := (S.cancel w.scheduler token).2
      history := (w.cancel token).history } := by
  unfold Ensemble.cancel
  dsimp only
  split <;> rfl

/-- A token is cancelled that is no living system's, except one that is being destroyed. -/
theorem Tidy.cancel (tidy : Tidy dying w) (acts : w.phase.acts = true)
    (foreign : ∀ id, .scheduled (some id) token ∈ w.history → dying = some id) :
    Tidy dying (w.cancel token) := by
  have frame := cancel_frame w token
  have grows : ∀ o ∈ w.history, o ∈ (w.cancel token).history := by
    intro o ho
    rw [cancel_history]
    split
    · exact List.mem_cons_of_mem _ ho
    · exact ho
  have only : ∀ o ∈ (w.cancel token).history, o ∈ w.history ∨ (o = .cancelled token ∧
      ∃ e ∈ S.pending w.scheduler, e.token = token) := by
    intro o ho
    rw [cancel_history] at ho
    split at ho
    · rename_i found
      rcases List.mem_cons.mp ho with rfl | ho
      · exact .inr ⟨rfl, (S.cancel_found _ _).mp found⟩
      · exact .inl ho
    · exact .inl ho
  have phase : (w.cancel token).phase = w.phase := by rw [frame]
  have systems : (w.cancel token).systems = w.systems := by rw [frame]
  have pending : S.pending (w.cancel token).scheduler =
      (S.pending w.scheduler).filter fun e => decide (e.token ≠ token) := by
    rw [frame]
    exact S.cancel_pending _ _
  have issued : S.issued (w.cancel token).scheduler = S.issued w.scheduler := by
    rw [frame]
    exact S.cancel_issued _ _
  have left : (w.cancel token).awaiting = w.awaiting.filter fun e => decide (e.token ≠ token) := by
    rw [awaiting_of_acts (phase ▸ acts), awaiting_of_acts acts, pending]
  have within : ∀ e ∈ (w.cancel token).awaiting, e ∈ w.awaiting ∧ e.token ≠ token := by
    intro e he
    rw [left, List.mem_filter, decide_eq_true_eq] at he
    exact he
  -- whether or not the token was pending, the events left are those with other tokens
  constructor
  case exact_ =>
    intro id tokens lives living
    rw [systems] at living
    rw [left, tokensOf_filter fun e he own same => lives (foreign id ?_)]
    · exact tidy.exact_ id tokens lives living
    · rw [← own, ← same]
      exact tidy.known e he
  case living =>
    intro e he id cell body same
    have holds := tidy.living e (within e he).1 id cell body same
    rw [systems, show (w.cancel token).cells = w.cells by rw [frame],
      show (w.cancel token).nextCell = w.nextCell by rw [frame]]
    exact holds
  case distinct =>
    rw [left]
    exact (List.filter_sublist.map _).nodup tidy.distinct
  case issued =>
    intro o ho token' same
    rw [issued]
    rcases only o ho with ho | ⟨rfl, e, he, known⟩
    · exact tidy.issued o ho token' same
    · cases same
      rw [← awaiting_of_acts acts] at he
      exact known ▸ tidy.issued _ (tidy.known e he) e.token rfl
  case known => exact fun e he => grows _ (tidy.known e (within e he).1)
  case unspent =>
    intro e he
    rw [← awaiting_of_acts (phase ▸ acts)] at he
    obtain ⟨mem, other⟩ := within e he
    obtain ⟨running, kept⟩ := tidy.unspent e (awaiting_of_acts acts ▸ mem)
    refine ⟨fun owner ho => ?_, fun ho => ?_⟩
    · rcases only _ ho with ho | ⟨same, -⟩
      · exact running owner ho
      · cases same
    · rcases only _ ho with ho | ⟨same, -⟩
      · exact kept ho
      · exact other (Occurrence.cancelled.inj same)
  case spent =>
    intro owner token' ho
    rcases only _ ho with ho | ⟨same, -⟩
    -- a scheduled event is pending, running or gone: the one cancelled here is gone now
    · rcases tidy.spent owner token' ho with ⟨e, he, known, own⟩ | running | gone
      · by_cases same : e.token = token
        · refine .inr (.inr ?_)
          rw [cancel_history, if_pos ((S.cancel_found _ _).mpr ⟨e, he, same⟩), ← known, same]
          exact List.mem_cons_self
        · refine .inl ⟨e, ?_, known, own⟩
          rw [pending]
          exact List.mem_filter.mpr ⟨he, decide_eq_true same⟩
      · exact .inr (.inl (grows _ running))
      · exact .inr (.inr (grows _ gone))
    · cases same
  case fresh =>
    intro id bound
    rw [systems]
    refine tidy.fresh id ?_
    rwa [show (w.cancel token).nextSystem = w.nextSystem by rw [frame]] at bound
  case gone =>
    intro id ho
    rw [systems, show (w.cancel token).nextSystem = w.nextSystem by rw [frame]]
    rcases only _ ho with ho | ⟨same, -⟩
    · exact tidy.gone id ho
    · cases same

/-- Outside of callbacks the awaited events are the pending ones. -/
theorem awaiting_of_outside (outside : w.phase = .outside) :
    w.awaiting = S.pending w.scheduler := awaiting_of_acts (by rw [outside]; rfl)

/-- The event about to run is awaited too. -/
theorem awaiting_of_entering (entering : w.phase = .entering event) :
    w.awaiting = event :: S.pending w.scheduler := by
  unfold awaiting
  rw [entering]
  rfl

/-- The scheduler calls a closure: its event is no longer pending, and its token not yet
erased. -/
theorem Tidy.dispatch (tidy : Tidy none w) (outside : w.phase = .outside)
    (next : S.dispatches w.scheduler event t) : Tidy none (w.dispatch event t) := by
  have pending : S.pending w.scheduler = event :: S.pending t := S.dispatches_pending next
  have same : (w.dispatch event t).awaiting = w.awaiting := by
    rw [awaiting_of_outside outside, pending]
    exact awaiting_of_entering rfl
  have others := List.nodup_cons.mp (pending ▸ awaiting_of_outside outside ▸ tidy.distinct)
  constructor
  case exact_ => exact same ▸ tidy.exact_
  case living => exact same ▸ tidy.living
  case distinct => exact same ▸ tidy.distinct
  case issued =>
    intro o ho token' own
    rw [show S.issued (w.dispatch event t).scheduler = S.issued w.scheduler from
      S.dispatches_issued next]
    rcases List.mem_cons.mp ho with rfl | ho
    · have mem : event ∈ w.awaiting := by
        rw [awaiting_of_outside outside, pending]
        exact List.mem_cons_self
      cases own
      exact tidy.issued _ (tidy.known event mem) event.token rfl
    · exact tidy.issued o ho token' own
  case known => exact fun e he => List.mem_cons_of_mem _ (tidy.known e (same ▸ he))
  case unspent =>
    intro e he
    have fates := tidy.unspent e (pending ▸ List.mem_cons_of_mem _ he)
    refine ⟨fun owner ho => ?_, fun ho => ?_⟩
    · rcases List.mem_cons.mp ho with same | ho
      · exact others.1 (List.mem_map.mpr ⟨e, he, (Occurrence.dispatched.inj same).2⟩)
      · exact fates.1 owner ho
    · rcases List.mem_cons.mp ho with same | ho
      · cases same
      · exact fates.2 ho
  case spent =>
    intro owner token' ho
    rcases List.mem_cons.mp ho with same | ho
    · cases same
    rcases tidy.spent owner token' ho with ⟨e, he, known, own⟩ | running | gone
    · rw [pending] at he
      rcases List.mem_cons.mp he with rfl | he
      · refine .inr (.inl ?_)
        rw [← known, ← own]
        exact List.mem_cons_self
      · exact .inl ⟨e, he, known, own⟩
    · exact .inr (.inl (List.mem_cons_of_mem _ running))
    · exact .inr (.inr (List.mem_cons_of_mem _ gone))
  case fresh => exact tidy.fresh
  case gone =>
    intro id ho
    rcases List.mem_cons.mp ho with same | ho
    · cases same
    · exact tidy.gone id ho

/-- A closure goes on to its body, without its token. -/
theorem Tidy.proceed (tidy : Tidy none w) (entering : w.phase = .entering event)
    (frame : w' = { w with systems := w'.systems, phase := .inside event.callback.owner })
    (systems : ∀ id, w'.systems id = (w.systems id).map fun tokens =>
      if event.callback.owner = some id then tokens.erase event.token else tokens) :
    Tidy none w' := by
  have before := awaiting_of_entering entering
  have after : w'.awaiting = S.pending w.scheduler := by rw [frame]; rfl
  have within : ∀ e ∈ w'.awaiting, e ∈ w.awaiting := by
    intro e he
    rw [before]
    exact List.mem_cons_of_mem _ (after ▸ he)
  have alive : ∀ {id tokens}, w.systems id = some tokens → ∃ tokens, w'.systems id = some tokens :=
    fun living => by
      rw [systems, living]
      exact ⟨_, rfl⟩
  constructor
  case exact_ =>
    intro id tokens _ living
    rw [systems] at living
    obtain ⟨tokens', held, rfl⟩ := Option.map_eq_some_iff.mp living
    have perm := tidy.exact_ id tokens' (by simp) held
    rw [before, tokensOf_cons] at perm
    rw [after]
    by_cases own : event.callback.owner = some id
    · rw [if_pos own] at perm ⊢
      have erased := perm.erase event.token
      rwa [List.erase_cons_head] at erased
    · rw [if_neg own] at perm ⊢
      exact perm
  case living =>
    intro e he id cell body same
    obtain ⟨⟨tokens, living⟩, holds⟩ := tidy.living e (within e he) id cell body same
    refine ⟨alive living, ?_⟩
    rw [frame]
    exact holds
  case distinct =>
    rw [after]
    have distinct := tidy.distinct
    rw [before] at distinct
    exact (List.nodup_cons.mp distinct).2
  case issued => rw [frame]; exact tidy.issued
  case known =>
    intro e he
    rw [show w'.history = w.history by rw [frame]]
    exact tidy.known e (within e he)
  case unspent => rw [frame]; exact tidy.unspent
  case spent => rw [frame]; exact tidy.spent
  case fresh =>
    intro id bound
    rw [systems, tidy.fresh id (by rwa [frame] at bound)]
    rfl
  case gone =>
    intro id ho
    rw [show w'.history = w.history by rw [frame]] at ho
    rw [systems, (tidy.gone id ho).1, show w'.nextSystem = w.nextSystem by rw [frame]]
    exact ⟨rfl, (tidy.gone id ho).2⟩

/-- A system's callback begins: it gives up the event's token first. -/
theorem Tidy.enter {time cell : Nat} {body : β} (tidy : Tidy none w)
    (entering : w.phase = .entering ⟨time, token, .system id cell body⟩) :
    Tidy none (w.enter id cell) := by
  have mem : ⟨time, token, .system id cell body⟩ ∈ w.awaiting := by
    rw [awaiting_of_entering entering]
    exact List.mem_cons_self
  obtain ⟨-, holds, -⟩ := tidy.living _ mem id cell body rfl
  refine tidy.proceed entering rfl fun i => ?_
  show (if i = id then (w.systems i).map (·.erase (w.cells cell)) else w.systems i) = _
  rw [holds]
  by_cases own : i = id
  · subst own
    rw [if_pos rfl]
    exact congrArg (fun f => Option.map f (w.systems i)) (funext fun tokens => (if_pos rfl).symm)
  · rw [if_neg own]
    have foreign : ∀ tokens : List Nat, (if (Closure.system id cell body).owner = some i
        then tokens.erase token else tokens) = tokens :=
      fun tokens => if_neg fun same => own (Option.some.inj same).symm
    simp only [foreign, Option.map_id']

/-- Another component's callback begins. -/
theorem Tidy.component {time : Nat} {body : β} (tidy : Tidy none w)
    (entering : w.phase = .entering ⟨time, token, .component body⟩) :
    Tidy none { w with phase := .inside none } := by
  refine tidy.proceed entering rfl fun i => ?_
  have foreign : ∀ tokens : List Nat, (if (Closure.component body).owner = some i
      then tokens.erase token else tokens) = tokens :=
        fun tokens => if_neg fun same => by cases same
  simp only [foreign, Option.map_id']

/-- A callback ends. -/
theorem Tidy.leave {owner : Option Nat} (tidy : Tidy none w) (inside : w.phase = .inside owner) :
    Tidy none { w with phase := .outside } := by
  have same : ({ w with phase := .outside } : Ensemble S).awaiting = w.awaiting := by
    rw [awaiting_of_acts (w := w) (by rw [inside]; rfl)]
    exact awaiting_of_outside rfl
  exact ⟨same ▸ tidy.exact_, same ▸ tidy.living, same ▸ tidy.distinct, tidy.issued,
    same ▸ tidy.known,
    tidy.unspent, tidy.spent, tidy.fresh, tidy.gone⟩

/-- The clock moves on. -/
theorem Tidy.pass (tidy : Tidy none w) (passes : S.passes w.scheduler t) :
    Tidy none { w with scheduler := t } := by
  have pending : S.pending t = S.pending w.scheduler := S.passes_pending passes
  have same : ({ w with scheduler := t } : Ensemble S).awaiting = w.awaiting :=
    congrArg (w.phase.event?.toList ++ ·) pending
  have issued : S.issued t = S.issued w.scheduler := S.passes_issued passes
  exact ⟨same ▸ tidy.exact_, same ▸ tidy.living, same ▸ tidy.distinct, issued ▸ tidy.issued,
    same ▸ tidy.known, pending ▸ tidy.unspent, pending ▸ tidy.spent, tidy.fresh, tidy.gone⟩

/-- A system is created, with no tokens. -/
theorem Tidy.create (tidy : Tidy none w) : Tidy none w.create := by
  have absent : w.systems w.nextSystem = none := tidy.fresh _ (Nat.le_refl _)
  have other : ∀ {id tokens}, w.systems id = some tokens → w.create.systems id = some tokens := by
    intro id tokens living
    refine (if_neg fun same => ?_).trans living
    rw [same, absent] at living
    cases living
  constructor
  case exact_ =>
    intro id tokens lives living
    by_cases new : id = w.nextSystem
    · subst new
      obtain rfl : [] = tokens := Option.some.inj ((if_pos rfl).symm.trans living)
      refine .of_eq (List.map_eq_nil_iff.mpr (List.filter_eq_nil_iff.mpr fun e he own => ?_)).symm
      cases closure : e.callback with
      | component body =>
          rw [closure] at own
          cases of_decide_eq_true own
      | system i cell body =>
          rw [closure] at own
          obtain ⟨⟨tokens, living⟩, -⟩ := tidy.living e he i cell body closure
          rw [Option.some.inj (of_decide_eq_true own), absent] at living
          cases living
    · exact tidy.exact_ id tokens lives ((if_neg new).symm.trans living)
  case living =>
    intro e he id cell body same
    obtain ⟨⟨tokens, living⟩, holds⟩ := tidy.living e he id cell body same
    exact ⟨⟨tokens, other living⟩, holds⟩
  case distinct => exact tidy.distinct
  case issued => exact tidy.issued
  case known => exact tidy.known
  case unspent => exact tidy.unspent
  case spent => exact tidy.spent
  case fresh =>
    intro id bound
    have later : id ≠ w.nextSystem := fun same => Nat.not_succ_le_self _ (same ▸ bound)
    exact (if_neg later).trans (tidy.fresh id (Nat.le_of_succ_le bound))
  case gone =>
    intro id ho
    obtain ⟨gone, below⟩ := tidy.gone id ho
    exact ⟨(if_neg (Nat.ne_of_lt below)).trans gone, Nat.lt_succ_of_lt below⟩

/-! ### The destructor -/

/-- A cancellation schedules nothing. -/
theorem cancel_scheduled {owner : Option Nat} {other : Nat}
    (ho : .scheduled owner other ∈ (w.cancel token).history) :
    .scheduled owner other ∈ w.history := by
  rw [cancel_history] at ho
  split at ho
  · rcases List.mem_cons.mp ho with same | ho
    · cases same
    · exact ho
  · exact ho

/-- Cancelling many tokens takes off their events and changes nothing else. -/
theorem cancelAll_frame (order : List Nat) (w : Ensemble S) :
    S.pending (order.foldl cancel w).scheduler =
        (S.pending w.scheduler).filter (fun e => decide (e.token ∉ order)) ∧
      order.foldl cancel w = { w with
        scheduler := (order.foldl cancel w).scheduler
        history := (order.foldl cancel w).history } ∧
      ∃ cancelled : List Nat, (order.foldl cancel w).history =
        cancelled.map Occurrence.cancelled ++ w.history := by
  induction order generalizing w with
  | nil => exact ⟨(List.filter_eq_self.mpr fun _ _ => rfl).symm, rfl, [], rfl⟩
  | cons token rest ih =>
      obtain ⟨pending, frame, cancelled, history⟩ := ih (w.cancel token)
      have first := cancel_frame w token
      refine ⟨?_, ?_, ?_⟩
      · rw [List.foldl_cons, pending, first, S.cancel_pending, List.filter_filter]
        refine List.filter_congr fun e _ => ?_
        by_cases same : e.token = token <;> simp [same]
      · rw [List.foldl_cons, frame, first]
      · rw [List.foldl_cons, history, cancel_history]
        split
        · exact ⟨cancelled ++ [token], by simp⟩
        · exact ⟨cancelled, rfl⟩

/-- A system under destruction cancels its tokens one by one. -/
theorem Tidy.cancelAll {order : List Nat} (tidy : Tidy (some id) w) (acts : w.phase.acts = true)
    (own : ∀ token ∈ order, ∀ i, .scheduled (some i) token ∈ w.history → i = id) :
    Tidy (some id) (order.foldl Ensemble.cancel w) := by
  induction order generalizing w with
  | nil => exact tidy
  | cons token rest ih =>
      refine ih (tidy.cancel acts fun i ho => ?_) ?_ fun other mem i ho => ?_
      · rw [own token List.mem_cons_self i ho]
      · rw [cancel_frame]
        exact acts
      · exact own other (List.mem_cons_of_mem _ mem) i (cancel_scheduled ho)

/-- A system's tokens were given to no other system. -/
theorem Tidy.owner_unique (tidy : Tidy none w) (acts : w.phase.acts = true)
    (living : w.systems id = some tokens) (mem : token ∈ tokens) {i : Nat}
    (ho : .scheduled (some i) token ∈ w.history) : i = id := by
  obtain ⟨e, he, own, rfl⟩ := mem_tokensOf.mp ((tidy.exact_ id tokens (by simp) living).mem_iff.mp mem)
  have pending := awaiting_of_acts acts ▸ he
  obtain ⟨running, kept⟩ := tidy.unspent e pending
  rcases tidy.spent _ _ ho with ⟨e', he', same, own'⟩ | ran | gone
  · have one : e' = e := List.inj_on_of_nodup_map tidy.distinct
      (by rw [awaiting_of_acts acts]; exact he') he same
    subst one
    exact Option.some.inj (own'.symm.trans own)
  · exact absurd ran (running _)
  · exact absurd gone kept

/-- A system without events may go. -/
theorem Tidy.bury (tidy : Tidy (some id) w) (living : w.systems id =
    some tokens) (none_left : ∀ e ∈ w.awaiting, e.callback.owner ≠ some id) :
    Tidy none (w.bury id) := by
  have kept : ∀ {i}, i ≠ id → (w.bury id).systems i = w.systems i := fun other => if_neg other
  constructor
  case exact_ =>
    intro i tokens' _ living'
    by_cases same : i = id
    · subst same
      cases (if_pos rfl).symm.trans living'
    · exact tidy.exact_ i tokens' (fun dying => same (Option.some.inj dying).symm)
        ((kept same).symm.trans living')
  case living =>
    intro e he i cell body same
    obtain ⟨⟨tokens, living⟩, holds⟩ := tidy.living e he i cell body same
    have other : i ≠ id := fun own => none_left e he (by rw [same, own]; rfl)
    exact ⟨⟨tokens, (kept other).trans living⟩, holds⟩
  case distinct => exact tidy.distinct
  case issued =>
    intro o ho token' same
    rcases List.mem_cons.mp ho with rfl | ho
    · cases same
    · exact tidy.issued o ho token' same
  case known => exact fun e he => List.mem_cons_of_mem _ (tidy.known e he)
  case unspent =>
    intro e he
    obtain ⟨running, kept⟩ := tidy.unspent e he
    simp only [Ensemble.bury, record, List.mem_cons, reduceCtorEq, false_or]
    exact ⟨running, kept⟩
  case spent =>
    intro owner token' ho
    simp only [Ensemble.bury, record, List.mem_cons, reduceCtorEq, false_or] at ho ⊢
    exact tidy.spent owner token' ho
  case fresh =>
    intro i bound
    show (if i = id then none else w.systems i) = none
    split
    · rfl
    · exact tidy.fresh i bound
  case gone =>
    intro i ho
    have below : ∀ {j tokens}, w.systems j = some tokens → j < w.nextSystem := by
      intro j tokens living
      refine Nat.lt_of_not_le fun bound => ?_
      rw [tidy.fresh j bound] at living
      cases living
    rcases List.mem_cons.mp ho with same | ho
    · cases same
      exact ⟨if_pos rfl, below living⟩
    · obtain ⟨gone, bound⟩ := tidy.gone i ho
      refine ⟨?_, bound⟩
      show (if i = id then none else w.systems i) = none
      split
      · rfl
      · exact gone

/-- A destroyed system leaves no event. -/
theorem Tidy.destroy {order : List Nat} (tidy : Tidy none w) (acts : w.phase.acts = true)
    (living : w.systems id = some tokens) (all : order.Perm tokens) :
    Tidy none (w.destroy id order) := by
  have own : ∀ token ∈ order, ∀ i, .scheduled (some i) token ∈ w.history → i = id :=
    fun token mem i ho => tidy.owner_unique acts living (all.mem_iff.mp mem) ho
  have dying : Tidy (some id) w :=
    ⟨fun i tokens _ => tidy.exact_ i tokens (by simp), tidy.living, tidy.distinct, tidy.issued,
      tidy.known, tidy.unspent, tidy.spent, tidy.fresh, tidy.gone⟩
  obtain ⟨pending, frame, -⟩ := cancelAll_frame order w
  have acts' : (order.foldl Ensemble.cancel w).phase.acts = true := by
    rw [frame]
    exact acts
  have living' : (order.foldl Ensemble.cancel w).systems id = some tokens := by
    rw [frame]
    exact living
  refine (dying.cancelAll acts own).bury living' fun e he owner => ?_
  rw [awaiting_of_acts acts', pending, List.mem_filter, decide_eq_true_eq] at he
  refine he.2 (all.mem_iff.mpr ((tidy.exact_ id tokens (by simp) living).mem_iff.mpr ?_))
  rw [awaiting_of_acts acts]
  exact mem_tokensOf.mpr ⟨e, he.1, owner, rfl⟩

/-- Every step keeps the tokens accounted for. -/
theorem Tidy.step (tidy : Tidy none w) (step : Step w w') : Tidy none w' := by
  cases step with
  | create acts => exact tidy.create
  | scheduleEvent acts living accepted => exact tidy.scheduleEvent acts living accepted
  | scheduleAt acts accepted => exact tidy.scheduleAt acts accepted
  | cancel acts foreign => exact tidy.cancel acts fun id ho => absurd ho (foreign id)
  | dispatch outside next => exact tidy.dispatch outside next
  | enter entering living => exact tidy.enter entering
  | component entering => exact tidy.component entering
  | leave inside => exact tidy.leave inside
  | pass passes => exact tidy.pass passes
  | destroy acts other living all => exact tidy.destroy acts living all

/-- Every reachable ensemble is tidy. -/
theorem Reachable.tidy (reached : Reachable w) : Tidy none w := by
  induction reached with
  | initial => exact tidy_initial
  | step _ step ih => exact ih.step step

end

end Ensemble

end HbmSim
