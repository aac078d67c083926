import HbmSim.System.Numbers

/-!
Transfers on their way.

An access a transfer serves is in the transfer's completion event, about to get one,
about to be credited, or finished: the trace and the events agree on it.
-/

namespace HbmSim

open HbmSim.Lib HbmSystem

/-- The accesses an observation issues on a channel. -/
def Observation.issues (channel : Nat) : Observation → List LogicalAccess
  | .issued c physical _ => if c = channel then physical.served else []
  | _ => []

/-- The accesses an observation finishes on a channel. -/
def Observation.ends (channel : Nat) : Observation → List LogicalAccess
  | .finished _ c access _ => if c = channel then [access.toLogicalAccess] else []
  | _ => []

/-- The accesses issued on a channel, as often as they were. -/
def issuedIn (trace : List Observation) (channel : Nat) : List LogicalAccess :=
  trace.flatMap (·.issues channel)

/-- The accesses finished on a channel. -/
def finishedIn (trace : List Observation) (channel : Nat) : List LogicalAccess :=
  trace.flatMap (·.ends channel)

/-- The issued accesses that are not finished. -/
def inTransfer (s : HbmSystem) (d : Debts) (channel : Nat) : List LogicalAccess :=
  flying s.scheduler.events channel ++ (d.issuedOn channel ++ d.finishingOn channel)

/-- Every issued access is finished or under way. -/
def Transferred (s : HbmSystem) (d : Debts) : Prop :=
  ∀ channel, (finishedIn s.trace channel ++ inTransfer s d channel).Perm (issuedIn s.trace channel)

section

variable {cfg : HbmConfig} {s t : HbmSystem} {d d' : Debts}

theorem Transferred.frame (h : Transferred s d)
    (under : ∀ channel, (inTransfer t d' channel).Perm (inTransfer s d channel))
    (trace : ∀ channel, issuedIn t.trace channel = issuedIn s.trace channel ∧
      finishedIn t.trace channel = finishedIn s.trace channel) : Transferred t d' := by
  intro channel
  rw [(trace channel).1, (trace channel).2]
  exact ((under channel).append_left _).trans (h channel)

/-- A change that keeps the events and the duties to finish. -/
theorem Transferred.keep (h : Transferred s d) (events : t.scheduler.events = s.scheduler.events)
    (issued : d'.issued = d.issued) (finishing : d'.finishing = d.finishing)
    (trace : ∀ channel, issuedIn t.trace channel = issuedIn s.trace channel ∧
      finishedIn t.trace channel = finishedIn s.trace channel) : Transferred t d' := by
  refine h.frame (fun channel => ?_) trace
  unfold inTransfer Debts.issuedOn Debts.finishingOn
  rw [events, issued, finishing]

theorem Transferred.schedule (h : Transferred s d) {at_ : Nat} {callback : EventCallback}
    (nothing : ∀ channel, callback.serves channel = []) :
    Transferred (s.schedule at_ callback) d := by
  refine h.frame (fun ch => ?_) fun _ => ⟨rfl, rfl⟩
  exact (flying_schedule s.scheduler.events (nothing ch)).append_right _

theorem Transferred.pop (h : Transferred s d) {event : Event EventCallback}
    {rest : List (Event EventCallback)} (next : s.scheduler.events = event :: rest)
    (nothing : ∀ channel, event.callback.serves channel = []) :
    Transferred (s.pop event rest) d := by
  refine h.frame (fun ch => ?_) fun _ => ⟨rfl, rfl⟩
  unfold inTransfer
  rw [next]
  show (flying rest ch ++ _).Perm (event.callback.serves ch ++ flying rest ch ++ _)
  rw [nothing ch]
  exact .refl _

/-- A transfer is issued and under way. -/
theorem Transferred.transfer (h : Transferred s d) {channel : Nat} {physical : PhysicalAccess}
    {at_ : Nat} {loose : List Nat} (u : ControllerState) :
    Transferred ((s.update channel u).observe (.issued channel physical at_))
      { d with issued := (channel, physical) :: d.issued, loose := loose } := by
  intro ch
  have before := h ch
  show (finishedIn s.trace ch ++ (flying s.scheduler.events ch ++
    ((if channel = ch then physical.served else []) ++ d.issuedOn ch ++ d.finishingOn ch))).Perm
      ((if channel = ch then physical.served else []) ++ issuedIn s.trace ch)
  refine .trans ?_ (before.append_left _)
  have moved := (work_perm (if channel = ch then physical.served else []) (finishedIn s.trace ch)
    (flying s.scheduler.events ch) (d.issuedOn ch) (d.finishingOn ch) []).1
  exact moved.trans (.of_eq (List.append_assoc ..))

/-- Its completion event is scheduled. -/
theorem Transferred.complete (h : Transferred s d) {channel : Nat} {physical : PhysicalAccess}
    {rest : List (Nat × PhysicalAccess)} (issued : d.issued = (channel, physical) :: rest) :
    Transferred (s.schedule physical.completionTime (.accessDone channel physical))
      { d with issued := rest } := by
  refine h.frame (fun ch => ?_) fun _ => ⟨rfl, rfl⟩
  refine .trans ((flying_emplace _ _ ch).append_right _) ?_
  unfold inTransfer Debts.issuedOn
  rw [issued, List.flatMap_cons]
  exact (work_perm _ [] _ _ _ []).2.1

/-- The event fires, and its accesses are to be finished. -/
theorem Transferred.accessDone (h : Transferred s d) {event : Event EventCallback}
    {rest : List (Event EventCallback)} {channel retired : Nat} {issued : PhysicalAccess}
    (next : s.scheduler.events = event :: rest)
    (callback : event.callback = .accessDone channel issued) :
    Transferred (s.pop event rest)
      { d with
        finishing := (issued.completions.map fun l => (channel, event.time, l)) ++ d.finishing
        retired := retired } := by
  refine h.frame (fun ch => ?_) fun _ => ⟨rfl, rfl⟩
  have running : Debts.finishingOn { d with
      finishing := (issued.completions.map fun l => (channel, event.time, l)) ++ d.finishing
      retired := retired } ch =
        (if channel = ch then issued.served else []) ++ d.finishingOn ch := by
    unfold Debts.finishingOn
    rw [List.flatMap_append, List.flatMap_map]
    congr 1
    by_cases hc : channel = ch
    · simp [hc, PhysicalAccess.served, List.map_eq_flatMap]
    · simp [hc]
  unfold inTransfer
  rw [running, next]
  show (flying rest ch ++ _).Perm (event.callback.serves ch ++ flying rest ch ++ _)
  rw [callback]
  have moved := (work_perm (if channel = ch then issued.served else []) [] (flying rest ch)
    (d.issuedOn ch) (d.finishingOn ch) []).2.2.1
  simp only [List.append_nil] at moved
  exact moved

/-- One of them is finished. -/
theorem Transferred.credit (h : Transferred s d) {channel time : Nat} {access : LogicalCompletion}
    {parent : ParentRequest} {rest : List (Nat × Nat × LogicalCompletion)} {ripe : Option Nat}
    (popped : d.finishing = (channel, time, access) :: rest) :
    Transferred (s.credit cfg channel access parent) { d with finishing := rest, ripe := ripe } := by
  intro ch
  refine .trans ?_ (h ch)
  show ((if channel = ch then [access.toLogicalAccess] else []) ++ finishedIn s.trace ch ++
    (flying s.scheduler.events ch ++ (d.issuedOn ch ++ Debts.finishingOn _ ch))).Perm _
  unfold inTransfer Debts.finishingOn
  rw [popped, List.flatMap_cons]
  have moved := (work_perm (if channel = ch then [access.toLogicalAccess] else [])
    (finishedIn s.trace ch) (flying s.scheduler.events ch) (d.issuedOn ch)
    (Debts.finishingOn { d with finishing := rest } ch) []).2.2.2.1
  simp only [List.append_nil] at moved
  rw [List.append_assoc]
  exact moved.symm

/-- Every move keeps track of the transfers. -/
theorem Transferred.move {p q : HbmSystem × Debts} (move : Move cfg p q)
    (h : Transferred p.1 p.2) : Transferred q.1 q.2 := by
  cases move with
  | @transfer s d channel physical t => exact h.transfer t
  | wake => exact h.schedule fun _ => rfl
  | arm => exact h.schedule fun _ => rfl
  | credit _ popped => exact h.credit popped
  | complete _ issued => exact h.complete issued
  | announce => exact h.schedule fun _ => rfl
  | @client s d at_ tag =>
      exact h.frame (fun ch => (flying_schedule s.scheduler.events rfl).append_right _)
        fun _ => ⟨rfl, rfl⟩
  | _ => exact h.keep rfl rfl rfl fun _ => ⟨rfl, rfl⟩

/-- Every turn keeps track of the transfers. -/
theorem Transferred.turn {p q : HbmSystem × Debts} (turn : Turn cfg p q)
    (h : Transferred p.1 p.2) : Transferred q.1 q.2 := by
  cases turn with
  | wake next callback =>
      exact (h.pop next fun ch => by rw [callback]; rfl).keep rfl rfl rfl fun _ => ⟨rfl, rfl⟩
  | refreshDue next callback =>
      exact (h.pop next fun ch => by rw [callback]; rfl).keep rfl rfl rfl fun _ => ⟨rfl, rfl⟩
  | accessDone next callback => exact h.accessDone next callback
  | @other s d event rest next callback =>
      have popped : Transferred (s.pop event rest) d := h.pop next fun ch => by
        rcases callback with ⟨_, h⟩ | ⟨_, h⟩ <;> rw [h] <;> rfl
      exact popped.keep rfl rfl rfl fun _ => ⟨rfl, rfl⟩
  | _ => exact h.keep rfl rfl rfl fun _ => ⟨rfl, rfl⟩

/-- In every run what is issued and not finished is under way. -/
theorem HbmSystem.Run.transferred {p : HbmSystem × Debts} (run : Run cfg p) :
    Transferred p.1 p.2 := by
  induction run with
  | create => exact fun _ => .refl _
  | move _ move ih => exact ih.move move
  | turn _ turn ih => exact ih.turn turn

/-- An issued access that is not finished is in transfer, once. -/
theorem inTransfer_count (checked : cfg.Checked) (run : Run cfg (s, d)) {channel : Nat}
    {l : LogicalAccess} (issued : l ∈ issuedIn s.trace channel)
    (unfinished : l ∉ finishedIn s.trace channel) : (inTransfer s d channel).count l = 1 := by
  have counted : (finishedIn s.trace channel ++ inTransfer s d channel).count l =
      (issuedIn s.trace channel).count l := (run.transferred channel).count_eq l
  rw [List.count_append, List.count_eq_zero_of_not_mem unfinished, Nat.zero_add] at counted
  have some : 0 < (issuedIn s.trace channel).count l := List.count_pos_iff.mpr issued
  have once : (workOn s d channel ++ d.slotsOn channel).count l ≤ 1 :=
    List.nodup_iff_count_le_one.mp (run.work_nodup checked channel) l
  have part : (inTransfer s d channel).count l ≤
      (workOn s d channel ++ d.slotsOn channel).count l := by
    unfold inTransfer workOn
    simp only [List.count_append]
    omega
  omega

end

end HbmSim
