import HbmSim.System.Draining
import HbmSim.System.Footprint

/-!
What a client is told.

A submission is answered as accepted exactly when its transaction has been accepted. A
completion is appended to the list of completions, if that is kept, when it is observed, and
the completion callback is called after it.
-/

namespace HbmSim

open HbmSim.Lib

/-- The id of the transaction that an answer accepts. -/
def Observation.grants : Observation → Option Nat
  | .returned result _ _ => if result.status = .accepted then some result.token else none
  | _ => none

/-- The ids that have been answered as accepted, newest first. -/
def grantedTokens (trace : List Observation) : List Nat := trace.filterMap (·.grants)

/-- The completion that an observation delivers. -/
def Observation.delivers : Observation → Option HbmCompletion
  | .completed _ completion _ => some completion
  | _ => none

/-- The completions delivered so far, newest first. -/
def deliveries (trace : List Observation) : List HbmCompletion := trace.filterMap (·.delivers)

namespace HbmSystem

variable {cfg : HbmConfig} {s t : HbmSystem}

/-! ### Submissions -/

/-- What a submission of the transaction has been answered. -/
inductive Answered (tx : HbmTransaction) (before after : List Observation) : Prop
  | accepted (accepts : acceptedTransactions after = tx :: acceptedTransactions before)
      (grants : grantedTokens after = tx.id :: grantedTokens before)
  | refused (accepts : acceptedTransactions after = acceptedTransactions before)
      (grants : grantedTokens after = grantedTokens before)

/-- Every acceptance has been answered, and nothing else has been answered as accepted. -/
def Granted (trace : List Observation) : Prop :=
  grantedTokens trace = (acceptedTransactions trace).map (·.id)

theorem Answered.granted {tx : HbmTransaction} {before after : List Observation}
    (h : Answered tx before after) (granted : Granted before) : Granted after := by
  unfold Granted at *
  cases h with
  | accepted accepts grants => rw [accepts, grants, granted, List.map_cons]
  | refused accepts grants => rw [accepts, grants, granted]

/-- Admitting accesses leaves what has been accepted and what has been answered. -/
theorem pumpAdmissions_answers (s : HbmSystem) :
    Exits (pumpAdmissions cfg) (fun _ t => acceptedTransactions t.trace =
      acceptedTransactions s.trace ∧ grantedTokens t.trace = grantedTokens s.trace)
      (fun _ _ => True) s :=
  (admitting_of_trace (J := fun trace => acceptedTransactions trace = acceptedTransactions s.trace ∧
    grantedTokens trace = grantedTokens s.trace) (fun _ _ _ => trivial)
    fun _ _ _ _ _ same => same).pumpAdmissions s ⟨rfl, rfl⟩

/-- An answer that accepts nothing, after nothing has been accepted. -/
theorem answered_refused {tx : HbmTransaction} {before : List Observation} {result : SubmitResult}
    (refuses : result.status ≠ .accepted) (pending at_ : Nat) :
    Answered tx before (.returned result pending at_ :: before) :=
  .refused rfl (List.filterMap_cons_none (if_neg refuses))

/-- A submission that returns has been answered, as accepted if and only if the transaction
has been accepted. -/
theorem submission_answered (tx : HbmTransaction) (s : HbmSystem) :
    Exits (submission cfg tx) (fun _ t => Answered tx s.trace t.trace) (fun _ _ => True) s := by
  unfold submission trySubmitNow
  simp only [exits_bind, exits_get, exits_ite, exits_pure, exits_modify, exits_ofExcept]
  -- the five refusals, in the source's order
  refine ⟨fun _ => answered_refused (by decide) _ _, fun _ => ?_⟩
  refine ⟨fun _ => answered_refused (by decide) _ _, fun _ => ?_⟩
  refine ⟨fun _ => answered_refused (by decide) _ _, fun _ => ?_⟩
  refine ⟨fun _ => answered_refused (by decide) _ _, fun _ =>
    ⟨fun first _ => ?_, fun _ _ => trivial⟩⟩
  refine ⟨fun _ => answered_refused (by decide) _ _, fun _ => ?_⟩
  -- whether the first channel has room is only read
  have read {α : Type} (op : ControllerM α) : Exits
      (onController cfg first.address.flatChannel op) (fun _ t => t.trace = s.trace)
      (fun _ _ => True) s :=
    onController_trace (J := (· = s.trace)) (fun _ _ _ => trivial) _ op s rfl
  refine (read _).mono (fun free t same => ⟨fun _ => ?_, fun _ => ?_⟩) fun _ _ _ => trivial
  · exact same ▸ answered_refused (by decide) _ _
  · refine (pumpAdmissions_answers (t.acceptTransaction tx)).mono (fun _ u admitted => ?_)
      fun _ _ _ => trivial
    obtain ⟨accepted, granted⟩ := admitted
    have grants : (Observation.returned ⟨.accepted, tx.id, ""⟩ u.systemEvents.length u.now).grants =
      some tx.id := rfl
    refine .accepted (accepted.trans ?_) ?_
    · exact congrArg (fun trace => tx :: acceptedTransactions trace) same
    · refine (List.filterMap_cons_some grants).trans ?_
      have before : grantedTokens t.trace = grantedTokens s.trace := congrArg grantedTokens same
      exact congrArg (tx.id :: ·) (granted.trans before)

/-! ### Runs -/

/-- What is observed otherwise accepts nothing and answers nothing. -/
theorem granted_cons {o : Observation} {trace : List Observation}
    (other : o.ofSubmission = false) (granted : Granted trace) : Granted (o :: trace) := by
  cases o with
  | accepted => cases other
  | returned => cases other
  | _ => exact granted

/-- In every run without an escaping exception the answers are those of the acceptances. -/
theorem Reachable.granted (reached : Reachable cfg NoEscape s) : Granted s.trace := by
  induction reached with
  | create created =>
      obtain ⟨-, -, rfl⟩ := create_ok.mp created
      rfl
  | @perform s t action _ performed granted =>
      have serving : Serving cfg (fun s => Granted s.trace) (fun _ _ => True) :=
        serving_of_trace (fun _ _ _ => trivial) (fun _ _ => granted_cons) fun tx s granted =>
          (submission_answered tx s).mono (fun _ _ answered => answered.granted granted)
            fun _ _ _ => trivial
      have kept := perform_trace serving action s granted
      unfold Exits at kept
      rwa [performed] at kept
  | escape _ _ _ escaped => exact escaped.elim

/-! ### Completions -/

/-- The completions delivered so far are kept, oldest first, if they are to be. -/
def Delivered (cfg : HbmConfig) (s : HbmSystem) : Prop :=
  s.completions =
    if cfg.simulation.retainCompletions then (deliveries s.trace).reverse else []

/-- Completing a parent appends its completion. -/
theorem Delivered.retire (delivered : Delivered cfg s) (request : ParentRequest) :
    Delivered cfg (s.retireParent cfg request) := by
  have appended : (s.retireParent cfg request).completions =
      if cfg.simulation.retainCompletions then s.completions ++ [completionOf request]
      else s.completions := rfl
  have observed : deliveries (s.retireParent cfg request).trace =
    completionOf request :: deliveries s.trace := rfl
  unfold Delivered at *
  rw [appended, observed, delivered, List.reverse_cons]
  split <;> rfl

/-- In every run the completions kept are those delivered, whatever escapes. -/
theorem Run.delivered {p : HbmSystem × Debts} (run : Run cfg p) : Delivered cfg p.1 := by
  induction run with
  | create =>
      unfold Delivered
      split <;> rfl
  | move run move delivered =>
      cases move with
      | retire found ripe finished admitted time closed => exact delivered.retire _
      | _ => exact delivered
  | turn run turn delivered => cases turn <;> exact delivered

/-- A parent that is completed has its completion observed and appended. Then the completion
callback is called, if there is one, and after it the capacity callback. -/
theorem completeParent_found {id : Nat} {request : ParentRequest}
    (found : s.findParent id = some request) :
    completeParent cfg id s = (do
      if s.completionCallback then invokeClient cfg
      notifyCapacity cfg request.completionChannel (← get).now : SystemM Unit)
        (s.retireParent cfg request) := by
  unfold completeParent
  rw [get_bind, found]
  rfl

end HbmSystem

end HbmSim
