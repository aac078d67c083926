import Mathlib.Data.List.Perm.Basic
import HbmSim.System.System

/-!
What a trace says.

The trace lists the observations of a run, newest first. From it alone one reads
which accesses of a ticket have been admitted, which have finished, and which
are still open; `Chronicle` states that every observation was legitimate given
the observations before it.
-/

namespace HbmSim

/-- The ticket an observation is about. -/
def Observation.ticket? : Observation → Option Nat
  | .accepted ticket _ _ => some ticket
  | .admitted ticket _ _ _ => some ticket
  | .finished ticket _ _ _ => some ticket
  | .completed ticket _ _ => some ticket
  | _ => none

/-- An access admitted for a ticket and not finished. -/
structure OpenAccess where
  ticket : Nat
  channel : Nat
  access : LogicalAccess
deriving DecidableEq

/-- The accesses admitted and not finished. -/
def openAccesses : List Observation → List OpenAccess
  | [] => []
  | .admitted ticket channel access _ :: rest =>
      ⟨ticket, channel, access.toLogicalAccess⟩ :: openAccesses rest
  | .finished ticket channel access _ :: rest =>
      (openAccesses rest).erase ⟨ticket, channel, access.toLogicalAccess⟩
  | _ :: rest => openAccesses rest

/-- The access an observation admits for the ticket. -/
def Observation.admits (ticket : Nat) : Observation → Option OpenAccess
  | .admitted t channel access _ =>
      if t = ticket then some ⟨t, channel, access.toLogicalAccess⟩ else none
  | _ => none

/-- The access an observation finishes for the ticket. -/
def Observation.finishes (ticket : Nat) : Observation → Option OpenAccess
  | .finished t channel access _ =>
      if t = ticket then some ⟨t, channel, access.toLogicalAccess⟩ else none
  | _ => none

/-- The time at which an observation finishes an access of the ticket. -/
def Observation.finishTime (ticket : Nat) : Observation → Option Nat
  | .finished t _ _ at_ => if t = ticket then some at_ else none
  | _ => none

def admittedAccesses (trace : List Observation) (ticket : Nat) : List OpenAccess :=
  trace.filterMap (·.admits ticket)

def finishedAccesses (trace : List Observation) (ticket : Nat) : List OpenAccess :=
  trace.filterMap (·.finishes ticket)

def finishTimes (trace : List Observation) (ticket : Nat) : List Nat :=
  trace.filterMap (·.finishTime ticket)

/-- The bytes admitted for the ticket. -/
def admittedBytes (trace : List Observation) (ticket : Nat) : Nat :=
  ((admittedAccesses trace ticket).map (·.access.sizeBytes)).sum

/-- The ticket has been completed. -/
def Completed (trace : List Observation) (ticket : Nat) : Prop :=
  ∃ completion at_, .completed ticket completion at_ ∈ trace

/-- Every observation is legitimate after the earlier ones. -/
def Chronicle (legit : Observation → List Observation → Prop) (trace : List Observation) : Prop :=
  ∀ o earlier, (o :: earlier) <:+ trace → legit o earlier

theorem Chronicle.nil {legit : Observation → List Observation → Prop} : Chronicle legit [] := by
  intro o earlier suffix
  simp at suffix

theorem chronicle_cons {legit : Observation → List Observation → Prop} {o : Observation}
    {trace : List Observation} :
    Chronicle legit (o :: trace) ↔ legit o trace ∧ Chronicle legit trace := by
  unfold Chronicle
  constructor
  · intro h
    refine ⟨h o trace (List.suffix_refl _), fun o' earlier suffix => ?_⟩
    exact h o' earlier (suffix.trans (List.suffix_cons o trace))
  · rintro ⟨first, h⟩ o' earlier suffix
    rcases List.suffix_cons_iff.mp suffix with same | suffix
    · cases same
      exact first
    · exact h o' earlier suffix

theorem Chronicle.mono {legit legit' : Observation → List Observation → Prop}
    {trace : List Observation} (h : Chronicle legit trace)
    (weaker : ∀ o earlier, legit o earlier → legit' o earlier) : Chronicle legit' trace :=
  fun o earlier suffix => weaker o earlier (h o earlier suffix)

/-! ### Observations about no ticket -/

section

variable {o : Observation} {trace : List Observation}

theorem openAccesses_neutral (neutral : o.ticket? = none) :
    openAccesses (o :: trace) = openAccesses trace := by
  cases o <;> first | rfl | cases neutral

theorem admittedBytes_neutral (neutral : o.ticket? = none) (ticket : Nat) :
    admittedBytes (o :: trace) ticket = admittedBytes trace ticket := by
  cases o <;> first | rfl | cases neutral

theorem finishTimes_neutral (neutral : o.ticket? = none) (ticket : Nat) :
    finishTimes (o :: trace) ticket = finishTimes trace ticket := by
  cases o <;> first | rfl | cases neutral

end

/-! ### Admitted, finished, open -/

/-- A finished access was open. -/
def FinishesOpen (o : Observation) (earlier : List Observation) : Prop :=
  ∀ ticket access, o.finishes ticket = some access → access ∈ openAccesses earlier

/-- In a trace that only finishes open accesses, the admitted accesses of a ticket
are the finished and the open ones. -/
theorem finished_append_open_perm {trace : List Observation}
    (h : Chronicle FinishesOpen trace) (ticket : Nat) :
    (finishedAccesses trace ticket ++ (openAccesses trace).filter (·.ticket == ticket)).Perm
      (admittedAccesses trace ticket) := by
  induction trace with
  | nil => exact .refl _
  | cons o rest ih =>
      obtain ⟨first, earlier⟩ := chronicle_cons.mp h
      have ih := ih earlier
      cases o with
      | admitted t channel access at_ =>
          simp only [finishedAccesses, admittedAccesses, openAccesses, List.filterMap_cons,
            Observation.finishes, Observation.admits, List.filter_cons] at ih ⊢
          by_cases ht : t = ticket
          · subst ht
            simp only [beq_self_eq_true, if_true]
            exact List.perm_middle.trans (ih.cons _)
          · simp only [beq_iff_eq, ht, if_false]
            exact ih
      | finished t channel access at_ =>
          simp only [finishedAccesses, admittedAccesses, openAccesses, List.filterMap_cons,
            Observation.finishes, Observation.admits] at ih ⊢
          have was_open := first t ⟨t, channel, access.toLogicalAccess⟩
            (by simp [Observation.finishes])
          have split := List.perm_cons_erase was_open
          by_cases ht : t = ticket
          · subst ht
            simp only [if_true, List.cons_append]
            refine .trans ?_ ih
            have := split.filter (·.ticket == t)
            simp only [List.filter_cons, beq_self_eq_true, if_true] at this
            exact (List.perm_middle.symm).trans (List.Perm.append_left _ this.symm)
          · simp only [ht, if_false]
            refine .trans (List.Perm.append_left _ ?_) ih
            have := split.filter (·.ticket == ticket)
            simpa [List.filter_cons, ht] using this.symm
      | accepted => exact ih
      | issued => exact ih
      | completed => exact ih
      | notified => exact ih
      | returned => exact ih

end HbmSim
