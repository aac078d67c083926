import HbmSim.System.Answers
import HbmSim.System.Quiescence
import HbmSim.System.Replay

/-!
Accepted transactions are completed exactly once.

An acceptance is known by its ticket, so that a client may use an id again. The
theorems speak about the trace: what was submitted, which accesses were admitted and
finished for it, and the completion that was delivered.
-/

namespace HbmSim

open HbmSim.Lib HbmSystem

/-- The observation completes the ticket. -/
def Observation.completes (ticket : Nat) : Observation → Bool
  | .completed t _ _ => t == ticket
  | _ => false

/-- What a delivered completion rests on: the transaction was accepted under the
ticket, all its bytes were admitted, all accesses admitted for it have finished, and the
completion reports the transaction, at the time of the last of them. -/
structure Deserved (ticket : Nat) (completion : HbmCompletion) (at_ : Nat)
    (earlier : List Observation) : Prop where
  submitted : ∃ tx at', .accepted ticket tx at' ∈ earlier ∧ completion.Of tx ∧
    admittedBytes earlier ticket = tx.sizeBytes
  finished : (finishedAccesses earlier ticket).Perm (admittedAccesses earlier ticket)
  delivered : completion.completionTime = at_
  last : at_ = latest (finishTimes earlier ticket)

/-- Transactions are completed exactly once, with what was submitted. -/
structure ExactlyOnce (s : HbmSystem) : Prop where
  /-- No ticket is accepted twice. -/
  tickets : ∀ ticket tx at_ earlier, (.accepted ticket tx at_ :: earlier) <:+ s.trace →
    ∀ o ∈ earlier, o.ticket? ≠ some ticket
  unique : ∀ ticket, s.trace.countP (·.completes ticket) ≤ 1
  deserved : ∀ ticket completion at_ earlier,
    (.completed ticket completion at_ :: earlier) <:+ s.trace →
      Deserved ticket completion at_ earlier
  /-- An access is credited to the ticket it was admitted for, and never after that
  ticket is completed. -/
  credited : ∀ ticket channel access at_ earlier,
    (.finished ticket channel access at_ :: earlier) <:+ s.trace →
      ⟨ticket, channel, access.toLogicalAccess⟩ ∈ openAccesses earlier ∧
        s.trace.countP (·.completes ticket) ≤ 1 ∧ ¬ Completed earlier ticket
  /-- Once no event of the system is pending, nothing is left to complete. -/
  all : s.systemEvents = [] → ∀ ticket tx at_, .accepted ticket tx at_ ∈ s.trace →
    s.trace.countP (·.completes ticket) = 1

section

variable {cfg : HbmConfig} {s : HbmSystem} {trace : List Observation}

theorem completes_of_completed {ticket : Nat} (h : Completed trace ticket) :
    0 < trace.countP (·.completes ticket) := by
  obtain ⟨completion, at_, mem⟩ := h
  exact List.countP_pos_iff.mpr ⟨_, mem, by simp [Observation.completes]⟩

theorem completed_of_completes {ticket : Nat} (h : trace.countP (·.completes ticket) ≠ 0) :
    Completed trace ticket := by
  obtain ⟨o, mem, completes⟩ := List.countP_pos_iff.mp (Nat.pos_of_ne_zero h)
  cases o with
  | completed t completion at_ =>
      obtain rfl : t = ticket := by simpa [Observation.completes] using completes
      exact ⟨completion, at_, mem⟩
  | _ => cases completes

/-- A legitimate trace completes no ticket twice. -/
theorem completes_le_one (legit : Chronicle Legit trace) (ticket : Nat) :
    trace.countP (·.completes ticket) ≤ 1 := by
  induction trace with
  | nil => exact Nat.zero_le _
  | cons o rest ih =>
      obtain ⟨first, earlier⟩ := chronicle_cons.mp legit
      have before := ih earlier
      rw [List.countP_cons]
      split
      · rename_i completes
        cases o with
        | completed t completion at_ =>
            obtain rfl : t = ticket := by simpa [Observation.completes] using completes
            have none : rest.countP (·.completes t) = 0 :=
              Decidable.byContradiction fun some => first.2.1 (completed_of_completes some)
            omega
        | _ => cases completes
      · exact before

/-- What a legitimate trace has observed before. -/
theorem legit_of_suffix (legit : Chronicle Legit trace) {o : Observation}
    {earlier : List Observation} (suffix : (o :: earlier) <:+ trace) :
    Legit o earlier ∧ Chronicle Legit earlier :=
  ⟨legit o earlier suffix, fun o' earlier' suffix' =>
    legit o' earlier' (suffix'.trans ((List.suffix_cons o earlier).trans suffix))⟩

/-- When no event of the system is pending, every accepted transaction has been completed. -/
theorem completed_of_quiet (reached : Reachable cfg NoEscape s) (quiet : s.systemEvents = [])
    {ticket at_ : Nat} {tx : HbmTransaction} (mem : .accepted ticket tx at_ ∈ s.trace) :
    s.trace.countP (·.completes ticket) = 1 := by
  obtain ⟨checked, -, d, run, alive, settled, finishing⟩ := reached.settled
  have family := (run.accounted checked).family
  have gone := parents_of_quiet checked run alive settled quiet finishing
  rcases family.settled ticket tx at_ mem with ⟨p, hp, -⟩ | completed
  · have hp : p ∈ s.parents := hp
    rw [gone] at hp
    cases hp
  · exact Nat.le_antisymm (completes_le_one family.legit ticket) (completes_of_completed completed)

/-- In every run without an escaping exception, every accepted transaction is completed
at most once, rightly, and exactly once when no event of the system is pending. -/
theorem exactly_once (reached : Reachable cfg NoEscape s) : ExactlyOnce s := by
  obtain ⟨checked, -, d, run, -⟩ := reached.settled
  have legit : Chronicle Legit s.trace := (run.accounted checked).family.legit
  constructor
  case tickets =>
    intro ticket tx at_ earlier suffix o ho same
    exact Nat.lt_irrefl _ ((legit_of_suffix legit suffix).1 o ho ticket same)
  case unique => exact completes_le_one legit
  case deserved =>
    intro ticket completion at_ earlier suffix
    obtain ⟨⟨submitted, -, closed, delivered, last⟩, before⟩ := legit_of_suffix legit suffix
    refine ⟨submitted, ?_, delivered, last⟩
    have perm := finished_append_open_perm (finishesOpen_of_legit before) ticket
    have none : (openAccesses earlier).filter (·.ticket == ticket) = [] :=
      List.filter_eq_nil_iff.mpr fun o ho => by simpa using closed o ho
    rwa [none, List.append_nil] at perm
  case credited =>
    intro ticket channel access at_ earlier suffix
    obtain ⟨opened, active⟩ := (legit_of_suffix legit suffix).1
    exact ⟨opened, completes_le_one legit ticket, active⟩
  case all =>
    intro quiet ticket tx at_ mem
    exact completed_of_quiet reached quiet mem

/-- What a client has been told is what has happened. -/
structure Announced (cfg : HbmConfig) (s : HbmSystem) : Prop where
  /-- The ids answered as accepted are those of the transactions accepted. -/
  answered : grantedTokens s.trace = (acceptedTransactions s.trace).map (·.id)
  /-- The completions kept are those of the transactions completed. -/
  kept : s.completions =
    if cfg.simulation.retainCompletions then (deliveries s.trace).reverse else []
  /-- A parent that is complete is retired before the callbacks are called. -/
  told : ∀ {id : Nat} {request : ParentRequest}, s.findParent id = some request →
    completeParent cfg id s = (do
      if s.completionCallback then invokeClient cfg
      notifyCapacity cfg request.completionChannel (← get).now : SystemM Unit)
        (s.retireParent cfg request)

/-- In every run without an escaping exception the client is answered `accepted` once for each
accepted transaction, in their order, and for no other, and finds the completions of the
completed ones in their order. The completion callback is called after the completion has been
observed and kept. -/
theorem announced (reached : Reachable cfg NoEscape s) : Announced cfg s := by
  obtain ⟨-, -, d, run, -⟩ := reached.settled
  exact ⟨reached.granted, run.delivered, completeParent_found⟩

/-- A client that submits a read again, under the same id, when it is completed. -/
theorem exactly_once_reused :
    ∃ s, ExactlyOnce s ∧ ∀ ticket < 2, s.trace.countP (·.completes ticket) = 1 := by
  obtain ⟨s, reached, final⟩ := exists_reachable .hbm2_2000 NoEscape
    ([submit (.read 7 0 64), .call (.setCompletionCallback true)] ++
      List.replicate 12 (.dispatch [[.trySubmitNow (.read 7 0 64)]]) ++ dispatches 12)
    (fun s => (List.range 2).all fun t => s.trace.countP (·.completes t) == 1)
    (by decide) (by decide) (by decide +kernel)
  refine ⟨s, exactly_once reached, fun ticket lt => ?_⟩
  simpa using List.all_eq_true.mp final ticket (List.mem_range.mpr lt)

end

end HbmSim
