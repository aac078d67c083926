import HbmSim.System.Attachment
import HbmSim.System.Replay

/-!
Teardown leaves nothing behind.

On any scheduler that keeps the promises of the interface, with any number of systems and
other components, `pending_events_` of a living system holds the tokens of its events that
are scheduled and neither dispatched nor cancelled. Its destructor takes these events off the
scheduler and no other, and no event of the system runs afterwards.
-/

namespace HbmSim

open Relation

namespace Ensemble

variable {β : Type} {S : SimScheduler (Closure β)}

/-- The token of an event the system has scheduled that is neither dispatched nor cancelled. -/
def Outstanding (w : Ensemble S) (id token : Nat) : Prop :=
  .scheduled (some id) token ∈ w.history ∧ .dispatched (some id) token ∉ w.history ∧
    .cancelled token ∉ w.history

/-- No event of the system has been dispatched whose closure has not begun. -/
def Quiet (w : Ensemble S) (id : Nat) : Prop :=
  ∀ event, w.phase = .entering event → event.callback.owner ≠ some id

/-- What the destructor of a system leaves. -/
structure TornDown (w w' : Ensemble S) (id : Nat) (tokens : List Nat) : Prop where
  /-- The events of its tokens are gone, -/
  cancelled : S.pending w'.scheduler =
    (S.pending w.scheduler).filter fun e => decide (e.token ∉ tokens)
  /-- and every other event stays, in its order and with its time. -/
  kept : S.pending w'.scheduler =
    (S.pending w.scheduler).filter fun e => decide (e.callback.owner ≠ some id)
  /-- No event of the system runs afterwards. -/
  silent : ∀ w'', ReflTransGen Step w' w'' → w''.phase.owner ≠ some id ∧
    ∀ e ∈ S.pending w''.scheduler, e.callback.owner ≠ some id

section

variable {w w' : Ensemble S} {id token : Nat} {tokens order : List Nat}

/-- A system that is gone has no event, running or pending. -/
structure Absent (w : Ensemble S) (id : Nat) : Prop where
  tidy : Tidy none w
  gone : w.systems id = none
  used : id < w.nextSystem
  still : w.phase.owner ≠ some id

theorem Absent.awaiting (h : Absent w id) : ∀ e ∈ w.awaiting, e.callback.owner ≠ some id := by
  intro e he own
  cases closure : e.callback with
  | component body =>
      rw [closure] at own
      cases own
  | system i cell body =>
      obtain ⟨⟨tokens, living⟩, -⟩ := h.tidy.living e he i cell body closure
      rw [closure] at own
      rw [Option.some.inj own, h.gone] at living
      cases living

theorem Absent.pending (h : Absent w id) :
    ∀ e ∈ S.pending w.scheduler, e.callback.owner ≠ some id :=
  fun e he => h.awaiting e (List.mem_append_right _ he)

theorem modifySystem_none {f : List Nat → List Nat} {other : Nat} (gone : w.systems id = none) :
    (w.modifySystem other f).systems id = none := by
  show (if id = other then (w.systems id).map f else w.systems id) = none
  rw [gone]
  split <;> rfl

theorem destroy_frame (w : Ensemble S) (id : Nat) (order : List Nat) :
    w.destroy id order = { w with
      scheduler := (order.foldl cancel w).scheduler
      systems := fun i => if i = id then none else w.systems i
      history := .destroyed id :: (order.foldl cancel w).history } := by
  obtain ⟨-, frame, -⟩ := cancelAll_frame order w
  unfold destroy bury record
  rw [frame]

/-- It stays gone. -/
theorem Absent.step (h : Absent w id) (step : Step w w') : Absent w' id := by
  have tidy := h.tidy.step step
  cases step with
  | create acts =>
      exact ⟨tidy, (if_neg (Nat.ne_of_lt h.used)).trans h.gone, Nat.lt_succ_of_lt h.used, h.still⟩
  | scheduleEvent acts living accepted =>
      exact ⟨tidy, modifySystem_none h.gone, h.used, h.still⟩
  | scheduleAt acts accepted => exact ⟨tidy, h.gone, h.used, h.still⟩
  | cancel acts foreign =>
      refine ⟨tidy, ?_, ?_, ?_⟩
      all_goals rw [cancel_frame]
      · exact h.gone
      · exact h.used
      · exact h.still
  | dispatch outside next =>
      refine ⟨tidy, h.gone, h.used, h.pending _ ?_⟩
      rw [S.dispatches_pending next]
      exact List.mem_cons_self
  | enter entering living =>
      refine ⟨tidy, modifySystem_none h.gone, h.used, fun own => ?_⟩
      rw [Option.some.inj own, h.gone] at living
      cases living
  | component entering => exact ⟨tidy, h.gone, h.used, fun own => by cases own⟩
  | leave inside => exact ⟨tidy, h.gone, h.used, fun own => by cases own⟩
  | pass passes => exact ⟨tidy, h.gone, h.used, h.still⟩
  | destroy acts other living all =>
      refine ⟨tidy, ?_, ?_, ?_⟩
      all_goals rw [destroy_frame]
      · show (if id = _ then none else w.systems id) = none
        rw [h.gone]
        split <;> rfl
      · exact h.used
      · exact h.still

theorem Absent.run (h : Absent w id) (run : ReflTransGen Step w w') : Absent w' id := by
  induction run with
  | refl => exact h
  | tail _ step ih => exact ih.step step

/-- The tokens a system holds are those of its pending events. -/
theorem Tidy.outstanding (tidy : Tidy none w) (living : w.systems id = some tokens)
    (quiet : w.Quiet id) : token ∈ tokens ↔ w.Outstanding id token := by
  have own : token ∈ tokens ↔
      ∃ e ∈ S.pending w.scheduler, e.callback.owner = some id ∧ e.token = token := by
    rw [(tidy.exact_ id tokens (by simp) living).mem_iff, mem_tokensOf]
    refine ⟨fun ⟨e, he, own, same⟩ => ⟨e, ?_, own, same⟩, fun ⟨e, he, holds⟩ =>
      ⟨e, List.mem_append_right _ he, holds⟩⟩
    rcases List.mem_append.mp he with begun | pending
    · refine absurd own (quiet e ?_)
      cases phase : w.phase with
      | entering event =>
          rw [phase] at begun
          obtain rfl := List.mem_singleton.mp begun
          rfl
      | outside =>
          rw [phase] at begun
          cases begun
      | inside owner =>
          rw [phase] at begun
          cases begun
    · exact pending
  rw [own]
  constructor
  · rintro ⟨e, he, owner, rfl⟩
    obtain ⟨running, kept⟩ := tidy.unspent e he
    exact ⟨owner ▸ tidy.known e (List.mem_append_right _ he), running _, kept⟩
  · rintro ⟨scheduled, running, kept⟩
    rcases tidy.spent _ _ scheduled with ⟨e, he, same, own⟩ | ran | gone
    · exact ⟨e, he, own, same⟩
    · exact absurd ran running
    · exact absurd gone kept

/-- On every scheduler, in every run of systems and other components attached to it, each
living system holds the tokens of its outstanding events, and its destructor takes exactly
these events off the scheduler. -/
theorem teardown (reached : Reachable w) (living : w.systems id = some tokens) :
    (w.Quiet id → tokens.Nodup ∧ ∀ token, token ∈ tokens ↔ w.Outstanding id token) ∧
      ∀ order, order.Perm tokens → w.phase.acts = true → w.phase.owner ≠ some id →
        TornDown w (w.destroy id order) id tokens := by
  have tidy := reached.tidy
  have held := tidy.exact_ id tokens (by simp) living
  refine ⟨fun quiet => ⟨?_, fun token => tidy.outstanding living quiet⟩,
    fun order all acts other => ?_⟩
  · exact held.nodup_iff.mpr ((List.filter_sublist.map _).nodup tidy.distinct)
  have left : S.pending (w.destroy id order).scheduler =
      (S.pending w.scheduler).filter fun e => decide (e.token ∉ tokens) := by
    rw [destroy_frame]
    refine (cancelAll_frame order w).1.trans (List.filter_congr fun e _ => ?_)
    simp only [all.mem_iff]
  constructor
  case cancelled => exact left
  case kept =>
    rw [left]
    refine List.filter_congr fun e he => decide_eq_decide.mpr (not_congr ?_)
    rw [held.mem_iff, mem_tokensOf, awaiting_of_acts acts]
    refine ⟨fun ⟨e', he', own, same⟩ => ?_, fun own => ⟨e, he, own, rfl⟩⟩
    have distinct := awaiting_of_acts acts ▸ tidy.distinct
    obtain rfl : e' = e := List.inj_on_of_nodup_map distinct he' he same
    exact own
  case silent =>
    intro w'' run
    have step : Step w (w.destroy id order) := .destroy acts other living all
    have absent : Absent (w.destroy id order) id := by
      refine ⟨tidy.step step, ?_, ?_, ?_⟩
      all_goals rw [destroy_frame]
      · exact if_pos rfl
      · refine Nat.lt_of_not_le fun bound => ?_
        rw [tidy.fresh id bound] at living
        cases living
      · exact other
    have gone := absent.run run
    exact ⟨gone.still, gone.pending⟩

/-- A system is destroyed while a read is under way and its client has an event pending. -/
theorem teardown_read : ∃ (w : OnQueue) (tokens : List Nat), w.systems 0 = some tokens ∧
    tokens ≠ [] ∧ (∀ token, token ∈ tokens ↔ w.Outstanding 0 token) ∧
      TornDown w (w.destroy 0 tokens) 0 tokens ∧
        (EventQueue.simScheduler _).pending (w.destroy 0 tokens).scheduler ≠ [] := by
  obtain ⟨s, reached, final⟩ := HbmSystem.exists_reachable .hbm2_2000 HbmSystem.NoEscape
    (.call (.scheduleAt 100000 7) :: HbmSystem.submit (.read 1 0 64) :: HbmSystem.dispatches 6)
    (fun s => decide (s.pendingEvents ≠ []) &&
      s.scheduler.events.any fun e => decide (e.token ∉ s.pendingEvents))
    (by decide) (by decide) (by decide +kernel)
  obtain ⟨busy, foreign⟩ := Bool.and_eq_true _ _ |>.mp final
  obtain ⟨event, mem, other⟩ := List.any_eq_true.mp foreign
  obtain ⟨w, reached, outside, attached⟩ := reached.attached
  obtain ⟨exact_, tears⟩ := teardown reached attached.pending
  have torn := tears _ (.refl _) (by rw [outside]; rfl) (by rw [outside]; exact Option.some_ne_none _ |>.symm)
  have quiet : w.Quiet 0 := fun event entering => by
    rw [outside] at entering
    cases entering
  refine ⟨w, _, attached.pending, of_decide_eq_true busy, (exact_ quiet).2, torn, fun nothing => ?_⟩
  rw [attached.scheduler] at mem
  obtain ⟨e, he, rfl⟩ := List.mem_map.mp mem
  have left : EventQueue.shown e ∈
      (EventQueue.simScheduler _).pending (w.destroy 0 s.pendingEvents).scheduler := by
    rw [torn.cancelled]
    exact List.mem_filter.mpr ⟨List.mem_map_of_mem he, other⟩
  rw [nothing] at left
  cases left

end

end Ensemble

end HbmSim
