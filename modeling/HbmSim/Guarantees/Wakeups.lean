import HbmSim.System.Quiescence
import HbmSim.System.Replay

/-!
No wakeup is lost.

After every call and every event, a channel with something to do has its wake event
and an issued access its completion event. A system none of whose events is pending has
therefore completed everything, and a refused submission can be tried again after one.
-/

namespace HbmSim

open HbmSim.Lib HbmSystem

/-- The channel has something to do. -/
def HbmController.HasWork (c : HbmController) : Prop :=
  c.readQueue ≠ [] ∨ c.writeQueue ≠ [] ∨ c.refreshPending = true ∨
    ∃ b ∈ c.banks, b.refreshPending = true ∨ b.rfmPending = true

/-- Everything that is under way has its event. -/
structure NoLostWakeup (s : HbmSystem) : Prop where
  marked : ∀ channel t, (s.controllers channel).wakeupAt = some t →
    s.now ≤ t ∧ ∃ e ∈ s.scheduler.events, e.time = t ∧ e.callback = .wake channel t
  attended : ∀ channel, (s.controllers channel).HasWork →
    ∃ e ∈ s.scheduler.events, ∃ t, e.callback = .wake channel t
  /-- An issued access that is not finished is in exactly one completion event. -/
  transfers : ∀ channel l, l ∈ issuedIn s.trace channel → l ∉ finishedIn s.trace channel →
    (flying s.scheduler.events channel).count l = 1
  quiescent : s.systemEvents = [] → s.parents.length = 0 ∧ s.pendingAdmissions = []
  /-- An event was pending whenever a submission was refused. -/
  backpressure : ∀ result pending at_, .returned result pending at_ ∈ s.trace →
    result.status = .backpressure → pending ≠ 0

section

variable {cfg : HbmConfig} {s : HbmSystem}

theorem HbmController.HasWork.not_idle {c : HbmController} (work : c.HasWork) : ¬ c.Idle := by
  rintro ⟨⟨flag, banks⟩, queues⟩
  rcases work with reads | writes | pending | ⟨b, hb, pending | pending⟩
  · exact reads (queues false)
  · exact writes (queues true)
  · exact nomatch flag.symm.trans pending
  · exact nomatch (banks b hb).2.symm.trans pending
  · exact nomatch (banks b hb).1.symm.trans pending

/-- In every run without an escaping exception no wakeup is lost. -/
theorem no_lost_wakeup (reached : Reachable cfg NoEscape s) : NoLostWakeup s := by
  obtain ⟨checked, -, d, run, alive, settled, finishing⟩ := reached.settled
  have lives : ¬ d.escaped = true := by simp [alive]
  have scheduled := run.scheduled
  constructor
  case marked =>
    intro channel t mark
    obtain ⟨e, he, callback⟩ := scheduled.marked channel t mark
    have stamped := scheduled.stamped e he
    rw [callback] at stamped
    refine ⟨?_, e, he, stamped.1.symm, callback⟩
    rw [stamped.1]
    exact scheduled.ordered.future e he
  case attended =>
    intro channel work
    rcases run.awake.resolve_left lives channel with idle | mark | owed
    · exact absurd idle work.not_idle
    · obtain ⟨t, mark⟩ := Option.isSome_iff_exists.mp mark
      obtain ⟨e, he, callback⟩ := scheduled.marked channel t mark
      exact ⟨e, he, t, callback⟩
    · rw [settled.wakes] at owed
      cases owed
  case transfers =>
    intro channel l issued unfinished
    have once := inTransfer_count checked run issued unfinished
    unfold inTransfer Debts.issuedOn Debts.finishingOn at once
    rw [settled.issued, finishing] at once
    simpa using once
  case quiescent =>
    intro quiet
    have gone := parents_of_quiet checked run alive settled quiet finishing
    have waiting := (run.waiting checked).resolve_left lives
    refine ⟨by rw [gone]; rfl, ?_⟩
    have pending : s.pendingAdmissions = (s.parents.filter d.waits).map (·.transaction.id) :=
      waiting.pending
    rw [pending, gone]
    rfl
  case backpressure =>
    intro result pending at_ mem status
    have chronicle := (run.backpressure checked).resolve_left lives
    obtain ⟨later, earlier, split⟩ := List.mem_iff_append.mp mem
    exact chronicle _ earlier ⟨later, split.symm⟩ status

/-- A read has been refused, one has been given the slot that another one still waits for, and
three transfers are under way. -/
theorem no_lost_wakeup_refused :
    ∃ s, NoLostWakeup s ∧ s.pendingAdmissions = [3] ∧
      (s.trace.any fun o => match o with
        | .returned result _ _ => result.status == .backpressure
        | _ => false) = true ∧
      (s.controllers 0).HasWork ∧
      ∃ channel l, l ∈ issuedIn s.trace channel ∧ l ∉ finishedIn s.trace channel := by
  obtain ⟨s, reached, final⟩ := exists_reachable .twoChannels NoEscape (rivals ++ dispatches 5)
    (fun s => decide (s.pendingAdmissions = [3]) &&
      (s.trace.any fun o => match o with
        | .returned result _ _ => result.status == .backpressure
        | _ => false) &&
      decide ((s.controllers 0).readQueue ≠ []) &&
      (issuedIn s.trace 1).any fun l => decide (l ∉ finishedIn s.trace 1))
    (by decide) (by decide) (by decide +kernel)
  obtain ⟨⟨⟨waiting, refused⟩, queued⟩, flying⟩ := by simpa only [Bool.and_eq_true] using final
  obtain ⟨l, issued, unfinished⟩ := List.any_eq_true.mp flying
  exact ⟨s, no_lost_wakeup reached, of_decide_eq_true waiting, refused,
    .inl (of_decide_eq_true queued), 1, l, issued, of_decide_eq_true unfinished⟩

end

end HbmSim
