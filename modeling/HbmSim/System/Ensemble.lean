import HbmSim.Kernel.SimScheduler

/-!
Components on one scheduler.

Memory systems and other components attach to one scheduler. A system schedules an event
through `schedule_event`: the closure it hands over holds a shared cell, the cell gets the
token when `schedule_at` has returned, and the token joins `pending_events_`. When the
scheduler runs the closure, the token in the cell leaves `pending_events_` first; then the
body runs. The destructor cancels what is left in `pending_events_`.

What a body does is left open. While it runs, and while nothing runs, every component may
schedule: a body calls a client, and a client calls what it likes. Components other than a
system cancel tokens no system was given; the token of a system's event leaves its hands
nowhere.
-/

namespace HbmSim

variable {β : Type}

/-- What the scheduler is handed to run. -/
inductive Closure (β : Type) where
  /-- Built by `schedule_event`. -/
  | system (id cell : Nat) (body : β)
  | component (body : β)
deriving DecidableEq, Repr

/-- The system an event belongs to. -/
def Closure.owner : Closure β → Option Nat
  | .system id _ _ => some id
  | .component _ => none

inductive Phase (β : Type) where
  /-- No event is running. -/
  | outside
  /-- The closure of an event has been called, and has done nothing yet. -/
  | entering (event : Pending (Closure β))
  /-- The body of an event is running. -/
  | inside (owner : Option Nat)

/-- What has happened to the events of a scheduler. -/
inductive Occurrence where
  | scheduled (owner : Option Nat) (token : Nat)
  | dispatched (owner : Option Nat) (token : Nat)
  | cancelled (token : Nat)
  | destroyed (id : Nat)
deriving DecidableEq, Repr

def Occurrence.token : Occurrence → Option Nat
  | .scheduled _ token | .dispatched _ token | .cancelled token => some token
  | .destroyed _ => none

/-- Systems and other components attached to a scheduler. -/
structure Ensemble (S : SimScheduler (Closure β)) where
  scheduler : S.State
  cells : Nat → Nat := fun _ => 0
  nextCell : Nat := 0
  /-- `pending_events_` of each living system. -/
  systems : Nat → Option (List Nat) := fun _ => none
  nextSystem : Nat := 0
  phase : Phase β := .outside
  /-- What has happened, latest first. -/
  history : List Occurrence := []

namespace Phase

/-- Code that may call the scheduler has control. -/
def acts : Phase β → Bool
  | .entering _ => false
  | .outside | .inside _ => true

/-- The event whose closure has done nothing yet. -/
def event? : Phase β → Option (Pending (Closure β))
  | .entering event => some event
  | .outside | .inside _ => none

/-- The system whose event is running. -/
def owner : Phase β → Option Nat
  | .entering event => event.callback.owner
  | .inside owner => owner
  | .outside => none

end Phase

namespace Ensemble

variable {S : SimScheduler (Closure β)}

/-- Change the pending tokens of one living system. -/
def modifySystem (w : Ensemble S) (id : Nat) (f : List Nat → List Nat) : Ensemble S :=
  { w with systems := fun i => if i = id then (w.systems i).map f else w.systems i }

def record (w : Ensemble S) (occurrence : Occurrence) : Ensemble S :=
  { w with history := occurrence :: w.history }

/-- A new system. -/
def create (w : Ensemble S) : Ensemble S :=
  { w with
    systems := fun i => if i = w.nextSystem then some [] else w.systems i
    nextSystem := w.nextSystem + 1 }

/-- The closure `schedule_event` builds next. -/
def closure (w : Ensemble S) (id : Nat) (body : β) : Closure β := .system id w.nextCell body

/-- `schedule_event`, once `schedule_at` has returned. -/
def scheduleEvent (w : Ensemble S) (id token : Nat) (scheduler : S.State) : Ensemble S :=
  ({ w with
    scheduler := scheduler
    cells := fun cell => if cell = w.nextCell then token else w.cells cell
    nextCell := w.nextCell + 1 } : Ensemble S).modifySystem id (token :: ·)
    |>.record (.scheduled (some id) token)

/-- Another component's event is scheduled. -/
def scheduleAt (w : Ensemble S) (token : Nat) (scheduler : S.State) : Ensemble S :=
  ({ w with scheduler := scheduler } : Ensemble S).record (.scheduled none token)

def cancel (w : Ensemble S) (token : Nat) : Ensemble S :=
  let w' : Ensemble S := { w with scheduler := (S.cancel w.scheduler token).2 }
  if (S.cancel w.scheduler token).1 then w'.record (.cancelled token) else w'

/-- The scheduler calls the closure of its next event. -/
def dispatch (w : Ensemble S) (event : Pending (Closure β)) (scheduler : S.State) : Ensemble S :=
  ({ w with scheduler := scheduler, phase := .entering event } : Ensemble S).record
    (.dispatched event.callback.owner event.token)

/-- The closure of a system's event erases the token its cell holds. -/
def enter (w : Ensemble S) (id cell : Nat) : Ensemble S :=
  { w.modifySystem id (·.erase (w.cells cell)) with phase := .inside (some id) }

/-- A system and its members are gone. -/
def bury (w : Ensemble S) (id : Nat) : Ensemble S :=
  ({ w with systems := fun i => if i = id then none else w.systems i } : Ensemble S).record
    (.destroyed id)

/-- `~HbmSystem`, which walks over `pending_events_` in some order. -/
def destroy (w : Ensemble S) (id : Nat) (order : List Nat) : Ensemble S :=
  (order.foldl cancel w).bury id

/-- One step of the scheduler or of what is attached to it. -/
inductive Step : Ensemble S → Ensemble S → Prop
  | create {w} (acts : w.phase.acts = true) : Step w w.create
  | scheduleEvent {w id tokens at_ body token t} (acts : w.phase.acts = true)
      (living : w.systems id = some tokens)
      (accepted : S.scheduleAt w.scheduler at_ (w.closure id body) = .ok (token, t)) :
      Step w (w.scheduleEvent id token t)
  | scheduleAt {w at_ body token t} (acts : w.phase.acts = true)
      (accepted : S.scheduleAt w.scheduler at_ (.component body) = .ok (token, t)) :
      Step w (w.scheduleAt token t)
  | cancel {w token} (acts : w.phase.acts = true)
      (foreign : ∀ id, .scheduled (some id) token ∉ w.history) : Step w (w.cancel token)
  | dispatch {w event t} (outside : w.phase = .outside)
      (next : S.dispatches w.scheduler event t) : Step w (w.dispatch event t)
  | enter {w time token id cell body tokens}
      (entering : w.phase = .entering ⟨time, token, .system id cell body⟩)
      (living : w.systems id = some tokens) : Step w (w.enter id cell)
  | component {w time token body} (entering : w.phase = .entering ⟨time, token, .component body⟩) :
      Step w { w with phase := .inside none }
  | leave {w owner} (inside : w.phase = .inside owner) : Step w { w with phase := .outside }
  | pass {w t} (passes : S.passes w.scheduler t) : Step w { w with scheduler := t }
  | destroy {w id tokens order} (acts : w.phase.acts = true) (other : w.phase.owner ≠ some id)
      (living : w.systems id = some tokens) (all : order.Perm tokens) :
      Step w (w.destroy id order)

/-- The ensembles of the runs of a scheduler. -/
inductive Reachable : Ensemble S → Prop
  | initial : Reachable { scheduler := S.initial }
  | step {w w'} (reached : Reachable w) (step : Step w w') : Reachable w'

end Ensemble

end HbmSim
