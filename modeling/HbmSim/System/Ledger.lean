import HbmSim.System.Family
import HbmSim.System.Wakeups

/-!
The ledger of accesses.

An access that is admitted and not finished is in exactly one place: in a slot
not pushed yet, in a queue, in an issued transfer, in a completion event, among
the accesses an event is about to credit, or lost to a transfer that does not fit
into 64 bits. The outstanding counter of a
controller counts all of them but the first. With the ledger no completion is
without a parent and no counter underflows.
-/

namespace HbmSim

open HbmSim.Lib HbmSystem

/-- The accesses a transfer serves. -/
def PhysicalAccess.served (physical : PhysicalAccess) : List LogicalAccess :=
  physical.completions.map LogicalCompletion.toLogicalAccess

/-- The accesses an event finishes on a channel. -/
def EventCallback.serves (channel : Nat) : EventCallback → List LogicalAccess
  | .accessDone c issued => if c = channel then issued.served else []
  | _ => []

/-- The accesses whose completion event is pending. -/
def flying (events : List (Event EventCallback)) (channel : Nat) : List LogicalAccess :=
  events.flatMap fun e => e.callback.serves channel

/-- The accesses whose completion event is owed. -/
def Debts.issuedOn (d : Debts) (channel : Nat) : List LogicalAccess :=
  d.issued.flatMap fun x => if x.1 = channel then x.2.served else []

/-- The accesses whose completion event is running. -/
def Debts.finishingOn (d : Debts) (channel : Nat) : List LogicalAccess :=
  d.finishing.flatMap fun x => if x.1 = channel then [x.2.2.toLogicalAccess] else []

/-- The accesses that have been lost. -/
def Debts.lostOn (d : Debts) (channel : Nat) : List LogicalAccess :=
  d.lost.flatMap fun x => if x.1 = channel then [x.2] else []

/-- The accesses whose slot is reserved only. -/
def Debts.slotsOn (d : Debts) (channel : Nat) : List LogicalAccess :=
  d.slots.flatMap fun a => if a.address.flatChannel = channel then [a.toLogicalAccess] else []

/-- The accesses a channel's controller has been given and has not finished. -/
def workOn (s : HbmSystem) (d : Debts) (channel : Nat) : List LogicalAccess :=
  (s.controllers channel).queued ++
    (flying s.scheduler.events channel ++
      (d.issuedOn channel ++ (d.finishingOn channel ++ d.lostOn channel)))

/-- The open accesses of a channel. -/
def openOn (trace : List Observation) (channel : Nat) : List LogicalAccess :=
  ((openAccesses trace).filter (·.channel == channel)).map (·.access)

/-- The accesses under way are the open ones, and the controllers count them. -/
structure Balanced (s : HbmSystem) (d : Debts) : Prop where
  opened : ∀ channel, (workOn s d channel ++ d.slotsOn channel).Perm (openOn s.trace channel)
  outstanding : ∀ channel,
    (s.controllers channel).outstandingAccesses = (workOn s d channel).length

section

variable {cfg : HbmConfig} {s t : HbmSystem} {d d' : Debts}

theorem flying_emplace (e : Event EventCallback) (events : List (Event EventCallback))
    (channel : Nat) :
    (flying (emplaceEvent e events) channel).Perm
      (e.callback.serves channel ++ flying events channel) :=
  (emplaceEvent_perm e events).flatMap_right _

/-- An event that finishes nothing changes nothing in flight. -/
theorem flying_schedule {at_ : Nat} {callback : EventCallback} (events : List (Event EventCallback))
    {sequence token channel : Nat} (nothing : callback.serves channel = []) :
    (flying (emplaceEvent ⟨at_, sequence, token, callback⟩ events) channel).Perm
      (flying events channel) := by
  have := flying_emplace ⟨at_, sequence, token, callback⟩ events channel
  rwa [show (Event.mk at_ sequence token callback).callback.serves channel =
    [] from nothing] at this

/-- Accesses may be moved to the front of the work. -/
theorem work_perm (a q f i g l : List LogicalAccess) :
    (q ++ (f ++ (a ++ i ++ g))).Perm (a ++ q ++ (f ++ (i ++ g))) ∧
      (a ++ f ++ (i ++ g)).Perm (f ++ (a ++ i ++ g)) ∧
      (f ++ (i ++ (a ++ g ++ l))).Perm (a ++ f ++ (i ++ (g ++ l))) ∧
      (q ++ (f ++ (i ++ (a ++ g ++ l)))).Perm (a ++ (q ++ (f ++ (i ++ (g ++ l))))) ∧
      (q ++ (f ++ (i ++ (g ++ (a ++ l))))).Perm (a ++ q ++ (f ++ (i ++ (g ++ l)))) := by
  simp only [List.perm_iff_count, List.count_append]
  refine ⟨fun x => ?_, fun x => ?_, fun x => ?_, fun x => ?_, fun x => ?_⟩ <;> omega

theorem mem_openOn {trace : List Observation} {channel : Nat} {l : LogicalAccess} :
    l ∈ openOn trace channel ↔ ∃ ticket, ⟨ticket, channel, l⟩ ∈ openAccesses trace := by
  unfold openOn
  simp only [List.mem_map, List.mem_filter, beq_iff_eq]
  constructor
  · rintro ⟨o, ⟨ho, rfl⟩, rfl⟩
    exact ⟨o.ticket, ho⟩
  · rintro ⟨ticket, h⟩
    exact ⟨_, ⟨h, rfl⟩, rfl⟩

/-! ### Changes of the ledger -/

/-- A change that moves accesses from one place to another at most. -/
theorem Balanced.frame (h : Balanced s d)
    (work : ∀ channel, (workOn t d' channel).Perm (workOn s d channel))
    (slots : d'.slots = d.slots) (trace : openAccesses t.trace = openAccesses s.trace)
    (outstanding : ∀ channel, (t.controllers channel).outstandingAccesses =
      (s.controllers channel).outstandingAccesses) : Balanced t d' where
  opened channel := by
    have same : openOn t.trace channel = openOn s.trace channel := by
      unfold openOn
      rw [trace]
    rw [same, show d'.slotsOn channel = d.slotsOn channel by unfold Debts.slotsOn; rw [slots]]
    exact ((work channel).append_right _).trans (h.opened channel)
  outstanding channel := by
    rw [outstanding, h.outstanding, (work channel).length_eq]

/-- A change of one controller that leaves the accesses in its queues alone. -/
theorem Balanced.update (h : Balanced s d) {channel : Nat} {c : HbmController}
    (controllers : ∀ ch, t.controllers ch = if ch = channel then c else s.controllers ch)
    (queued : c.queued = (s.controllers channel).queued)
    (outstanding : c.outstandingAccesses = (s.controllers channel).outstandingAccesses)
    (scheduler : t.scheduler = s.scheduler) (issued : d'.issued = d.issued)
    (finishing : d'.finishing = d.finishing) (lost : d'.lost = d.lost)
    (slots : d'.slots = d.slots) (trace : openAccesses t.trace = openAccesses s.trace) :
    Balanced t d' := by
  have same : ∀ ch, (t.controllers ch).queued = (s.controllers ch).queued ∧
      (t.controllers ch).outstandingAccesses = (s.controllers ch).outstandingAccesses := by
    intro ch
    rw [controllers]
    split
    · subst ch
      exact ⟨queued, outstanding⟩
    · exact ⟨rfl, rfl⟩
  refine h.frame (fun ch => ?_) slots trace fun ch => (same ch).2
  unfold workOn Debts.issuedOn Debts.finishingOn Debts.lostOn
  rw [(same ch).1, scheduler, issued, finishing, lost]

/-- An event is scheduled that finishes nothing. -/
theorem Balanced.schedule (h : Balanced s d) {at_ : Nat} {callback : EventCallback}
    (nothing : ∀ channel, callback.serves channel = []) :
    Balanced (s.schedule at_ callback) d := by
  refine h.frame (fun ch => ?_) rfl rfl fun _ => rfl
  exact ((flying_schedule s.scheduler.events (nothing ch)).append_right _).append_left _

/-- An event is taken off that finishes nothing. -/
theorem Balanced.pop (h : Balanced s d) {event : Event EventCallback}
    {rest : List (Event EventCallback)} (next : s.scheduler.events = event :: rest)
    (nothing : ∀ channel, event.callback.serves channel = []) :
    Balanced (s.pop event rest) d := by
  refine h.frame (fun ch => ?_) rfl rfl fun _ => rfl
  unfold workOn
  rw [next]
  show ((s.controllers ch).queued ++ (flying rest ch ++ _)).Perm
    ((s.controllers ch).queued ++ (event.callback.serves ch ++ flying rest ch ++ _))
  rw [nothing ch]
  exact .refl _

/-- A data command moves the accesses it serves from the queues to its transfer. -/
theorem Balanced.transfer (h : Balanced s d) {channel : Nat} {physical : PhysicalAccess}
    {u : ControllerState} {loose : List Nat}
    (step : HbmController.DataStep (cfg.channelConfig channel) cfg.mapper s.now
      (s.side channel) physical u) :
    Balanced (s.update channel u)
      { d with issued := (channel, physical) :: d.issued, loose := loose } := by
  refine h.frame (fun ch => ?_) rfl rfl fun ch => ?_
  · unfold workOn Debts.issuedOn
    rw [update_controllers, List.flatMap_cons]
    by_cases hc : ch = channel
    · subst hc
      rw [if_pos rfl, if_pos rfl]
      have queued : (physical.served ++ u.ctl.queued).Perm (s.controllers ch).queued := step.queued
      refine .trans ?_ (queued.append_right _)
      exact (work_perm _ _ _ _ _ []).1
    · rw [if_neg hc, if_neg (Ne.symm hc)]
      exact .refl _
  · rw [update_controllers]
    split
    · subst ch
      exact step.marks.outstandingAccesses
    · rfl

/-- A data command without a transfer loses the accesses it takes. -/
theorem Balanced.lose (h : Balanced s d) {channel : Nat} {lost : List LogicalAccess}
    {u : ControllerState}
    (step : HbmController.LostStep (cfg.channelConfig channel) cfg.mapper s.now
      (s.side channel) lost u) :
    Balanced (s.update channel u)
      { d with escaped := true, lost := lost.map (Prod.mk channel) ++ d.lost } := by
  have taken : ∀ ch, Debts.lostOn { d with
      escaped := true, lost := lost.map (Prod.mk channel) ++ d.lost } ch =
        (if channel = ch then lost else []) ++ d.lostOn ch := by
    intro ch
    unfold Debts.lostOn
    rw [List.flatMap_append, List.flatMap_map]
    congr 1
    by_cases hc : channel = ch
    · simp [hc]
    · simp [hc]
  refine h.frame (fun ch => ?_) rfl rfl fun ch => ?_
  · unfold workOn
    rw [update_controllers, taken]
    by_cases hc : ch = channel
    · subst hc
      rw [if_pos rfl, if_pos rfl]
      have queued : (lost ++ u.ctl.queued).Perm (s.controllers ch).queued := step.queued
      refine .trans ?_ (queued.append_right _)
      exact (work_perm _ _ _ _ _ _).2.2.2.2
    · rw [if_neg hc, if_neg (Ne.symm hc)]
      exact .refl _
  · rw [update_controllers]
    split
    · subst ch
      exact step.marks.outstandingAccesses
    · rfl

/-- A transfer gets its completion event. -/
theorem Balanced.complete (h : Balanced s d) {channel : Nat} {physical : PhysicalAccess}
    {rest : List (Nat × PhysicalAccess)} (issued : d.issued = (channel, physical) :: rest) :
    Balanced (s.schedule physical.completionTime (.accessDone channel physical))
      { d with issued := rest } := by
  refine h.frame (fun ch => ?_) rfl rfl fun _ => rfl
  refine List.Perm.append_left _ ?_
  refine .trans ((flying_emplace _ _ ch).append_right _) ?_
  unfold Debts.issuedOn
  rw [issued, List.flatMap_cons]
  exact (work_perm _ [] _ _ _ []).2.1

/-- A completion event starts running. -/
theorem Balanced.accessDone (h : Balanced s d) {event : Event EventCallback}
    {rest : List (Event EventCallback)} {channel retired : Nat} {issued : PhysicalAccess}
    (next : s.scheduler.events = event :: rest)
    (callback : event.callback = .accessDone channel issued) :
    Balanced (s.pop event rest)
      { d with
        finishing := (issued.completions.map fun l => (channel, event.time, l)) ++ d.finishing
        retired := retired } := by
  refine h.frame (fun ch => ?_) rfl rfl fun _ => rfl
  refine List.Perm.append_left _ ?_
  have running : Debts.finishingOn { d with
      finishing := (issued.completions.map fun l => (channel, event.time, l)) ++ d.finishing
      retired := retired } ch =
        (if channel = ch then issued.served else []) ++ d.finishingOn ch := by
    unfold Debts.finishingOn
    rw [List.flatMap_append, List.flatMap_map]
    congr 1
    by_cases hc : channel = ch
    · simp [hc, PhysicalAccess.served, List.map_eq_flatMap]
    · simp [hc]
  have popped : flying s.scheduler.events ch =
      (if channel = ch then issued.served else []) ++ flying rest ch := by
    rw [next]
    show event.callback.serves ch ++ flying rest ch = _
    rw [callback]
    rfl
  rw [running, popped]
  exact (work_perm _ [] _ _ _ _).2.2.1

/-- An access is charged to its parent. -/
theorem Balanced.charge (h : Balanced s d) (parent : ParentRequest) (access : HbmAccess)
    (closing : Option Nat) :
    Balanced (s.charge parent access)
      { d with slots := s.numbered access :: d.slots, closing := closing } where
  opened channel := by
    have work : workOn (s.charge parent access)
        { d with slots := s.numbered access :: d.slots, closing := closing } channel =
          workOn s d channel := by
      unfold workOn
      rw [charge_controllers]
      split
      · subst channel
        rfl
      · rfl
    rw [work]
    show (_ ++ ((if access.address.flatChannel = channel then [(s.numbered access).toLogicalAccess]
      else []) ++ d.slotsOn channel)).Perm
        (((⟨parent.ticket, access.address.flatChannel, (s.numbered access).toLogicalAccess⟩ ::
          openAccesses s.trace).filter (·.channel == channel)).map (·.access))
    rw [List.filter_cons]
    by_cases hc : access.address.flatChannel = channel
    · rw [if_pos hc, if_pos (by simpa using hc)]
      exact List.perm_middle.trans ((h.opened channel).cons _)
    · rw [if_neg hc, if_neg (by simpa using hc)]
      exact h.opened channel
  outstanding channel := by
    have same := h.outstanding channel
    unfold workOn at same ⊢
    rw [charge_controllers]
    split
    · subst channel
      exact same
    · exact same

/-- A pushed access is queued. -/
theorem push_queued (c : HbmController) (a : HbmAccess) :
    (c.push a).queued.Perm (a.toLogicalAccess :: c.queued) := by
  unfold HbmController.queued
  simp only [HbmController.push_queue]
  cases a.op.isWrite with
  | true =>
      simp only [if_true, Bool.false_eq_true, if_false, List.map_append, List.map_cons,
        List.map_nil, ← List.append_assoc]
      exact List.perm_append_singleton ..
  | false =>
      simp only [if_true, Bool.true_eq_false, if_false, List.map_append, List.map_cons,
        List.map_nil, List.append_assoc]
      exact List.perm_middle

/-- A charged access is pushed into its queue. -/
theorem Balanced.push (h : Balanced s d) {access : HbmAccess} {rest : List HbmAccess}
    (slot : d.slots = access :: rest) (wakes rearm : List Nat) :
    Balanced (s.push cfg access) { d with slots := rest, wakes := wakes, rearm := rearm } := by
  have work : ∀ channel, (workOn (s.push cfg access)
      { d with slots := rest, wakes := wakes, rearm := rearm } channel).Perm
        ((if access.address.flatChannel = channel then [access.toLogicalAccess] else []) ++
          workOn s d channel) := by
    intro channel
    unfold workOn
    rw [push_controllers]
    by_cases hc : channel = access.address.flatChannel
    · subst hc
      rw [if_pos rfl, if_pos rfl]
      exact (push_queued _ { access with enqueuedAt := access.arrivalTime }).append_right _
    · rw [if_neg hc, if_neg (Ne.symm hc)]
      exact .refl _
  constructor
  case opened =>
    intro channel
    refine .trans ((work channel).append_right _) (.trans ?_ (h.opened channel))
    have slots : d.slotsOn channel =
        (if access.address.flatChannel = channel then [access.toLogicalAccess] else []) ++
          Debts.slotsOn { d with slots := rest, wakes := wakes, rearm := rearm } channel := by
      unfold Debts.slotsOn
      rw [slot, List.flatMap_cons]
    rw [slots]
    simp only [List.perm_iff_count, List.count_append]
    intro l
    omega
  case outstanding =>
    intro channel
    have same := h.outstanding channel
    rw [(work channel).length_eq, List.length_append, ← same, push_controllers]
    split
    · subst channel
      rw [if_pos rfl]
      exact Nat.add_comm _ _
    · rename_i hc
      rw [if_neg (Ne.symm hc)]
      exact (Nat.zero_add _).symm

/-- The access that is credited next is open. -/
theorem Balanced.finishing_open (h : Balanced s d) {channel time : Nat}
    {access : LogicalCompletion} {rest : List (Nat × Nat × LogicalCompletion)}
    (popped : d.finishing = (channel, time, access) :: rest) :
    ∃ ticket, ⟨ticket, channel, access.toLogicalAccess⟩ ∈ openAccesses s.trace := by
  refine mem_openOn.mp ((h.opened channel).mem_iff.mp ?_)
  refine List.mem_append_left _ (List.mem_append_right _ (List.mem_append_right _
    (List.mem_append_right _ (List.mem_append_left _ ?_))))
  unfold Debts.finishingOn
  rw [popped, List.flatMap_cons, if_pos rfl]
  exact List.mem_append_left _ (List.mem_singleton_self _)

/-- A finished access is credited. -/
theorem Balanced.credit (h : Balanced s d) {channel time : Nat} {access : LogicalCompletion}
    {parent : ParentRequest} {rest : List (Nat × Nat × LogicalCompletion)} {ripe : Option Nat}
    (popped : d.finishing = (channel, time, access) :: rest)
    (opened : ⟨parent.ticket, channel, access.toLogicalAccess⟩ ∈ openAccesses s.trace) :
    Balanced (s.credit cfg channel access parent) { d with finishing := rest, ripe := ripe } := by
  have work : ∀ ch, (workOn s d ch).Perm
      ((if channel = ch then [access.toLogicalAccess] else []) ++
        workOn (s.credit cfg channel access parent) { d with finishing := rest, ripe := ripe }
          ch) := by
    intro ch
    have queued : ((s.credit cfg channel access parent).controllers ch).queued =
        (s.controllers ch).queued := by
      rw [credit_controllers]
      split
      · subst ch
        rfl
      · rfl
    unfold workOn
    rw [queued]
    unfold Debts.finishingOn
    rw [popped, List.flatMap_cons]
    exact (work_perm _ _ _ _ _ _).2.2.2.1
  constructor
  case opened =>
    intro ch
    have before := h.opened ch
    have closed : (openOn s.trace ch).Perm
        ((if channel = ch then [access.toLogicalAccess] else []) ++
          openOn (s.credit cfg channel access parent).trace ch) := by
      have split := (List.perm_cons_erase opened).filter (·.channel == ch)
      rw [List.filter_cons] at split
      by_cases hc : channel = ch
      · rw [if_pos (by simpa using hc)] at split
        rw [if_pos hc]
        exact split.map (·.access)
      · rw [if_neg (by simpa using hc)] at split
        rw [if_neg hc]
        exact split.map (·.access)
    have both := ((work ch).symm.append_right (d.slotsOn ch)).trans (before.trans closed)
    rw [List.append_assoc] at both
    exact (List.perm_append_left_iff _).mp both
  case outstanding =>
    intro ch
    have before := h.outstanding ch
    rw [(work ch).length_eq, List.length_append] at before
    rw [credit_controllers]
    split
    · subst ch
      rw [if_pos rfl] at before
      show (s.controllers channel).outstandingAccesses - 1 = _
      rw [before]
      exact Nat.add_sub_cancel_left ..
    · rename_i hc
      rw [if_neg (Ne.symm hc)] at before
      exact before.trans (Nat.zero_add _)

/-! ### The invariant -/

/-- The parents, the trace and the accesses under way agree. -/
structure Accounted (s : HbmSystem) (d : Debts) : Prop where
  family : Family s.parents s.trace s.nextTicket s.now d.ripe
  balanced : Balanced s d

/-- The parent found is the one of that id. -/
theorem findParent_some {id : Nat} {p : ParentRequest} (found : s.findParent id = some p) :
    p ∈ s.parents ∧ p.transaction.id = id :=
  ⟨List.mem_of_find?_eq_some found, by simpa using List.find?_some found⟩

/-- The parent found for a finishing access is the one it was admitted for. -/
theorem Accounted.opened (h : Accounted s d) {channel time : Nat} {access : LogicalCompletion}
    {rest : List (Nat × Nat × LogicalCompletion)} {parent : ParentRequest}
    (popped : d.finishing = (channel, time, access) :: rest)
    (found : s.findParent access.parentId = some parent) :
    ⟨parent.ticket, channel, access.toLogicalAccess⟩ ∈ openAccesses s.trace := by
  obtain ⟨ticket, opened⟩ := h.balanced.finishing_open popped
  obtain ⟨p, hp, rfl, of⟩ := h.family.owner _ opened
  obtain ⟨mem, id⟩ := findParent_some found
  obtain rfl := h.family.eq_of_id mem hp (id.trans of.parentId)
  exact opened

/-- Every move keeps the ledger. -/
theorem Accounted.move (checked : cfg.Checked) {p q : HbmSystem × Debts} (move : Move cfg p q)
    (h : Accounted p.1 p.2) : Accounted q.1 q.2 := by
  obtain ⟨family, balanced⟩ := h
  -- a charge opens an access of a parent, a credit closes one, a retirement takes the parent out
  cases move with
  | @control s d channel t _ step =>
      exact ⟨family, balanced.update (update_controllers s channel t) step.queued
        step.marks.outstandingAccesses rfl rfl rfl rfl rfl rfl⟩
  | @stir s d channel t _ step =>
      exact ⟨family, balanced.update (update_controllers s channel t) step.queued
        step.marks.outstandingAccesses rfl rfl rfl rfl rfl rfl⟩
  | calm => exact ⟨family, balanced.frame (fun _ => .refl _) rfl rfl fun _ => rfl⟩
  | transfer _ step =>
      exact ⟨family.observe rfl,
        (balanced.transfer step).frame (fun _ => .refl _) rfl rfl fun _ => rfl⟩
  | awake => exact ⟨family, balanced.frame (fun _ => .refl _) rfl rfl fun _ => rfl⟩
  | @wake s d channel at_ =>
      exact ⟨family, (balanced.update (modifyController_controllers s channel _) rfl rfl rfl rfl rfl
        rfl rfl rfl).schedule fun _ => rfl⟩
  | armed => exact ⟨family, balanced.frame (fun _ => .refl _) rfl rfl fun _ => rfl⟩
  | @arm s d channel due =>
      exact ⟨family, (balanced.update (modifyController_controllers s channel _) rfl rfl rfl rfl rfl
        rfl rfl rfl).schedule fun _ => rfl⟩
  | @misarm s d channel due =>
      have same := modifyController_controllers s channel fun c =>
        { c with refreshDueAt := some due }
      exact ⟨family, balanced.update same rfl rfl rfl rfl rfl rfl rfl rfl⟩
  | @accept s d tx sized arrived fresh fits =>
      refine ⟨family.accept sized (fun p hp => ?_) fits arrived,
        balanced.frame (fun _ => .refl _) rfl rfl fun _ => rfl⟩
      simpa using List.find?_eq_none.mp fresh p hp
  | @charge s d parent access _ _ _ found _ _ unfinished next =>
      obtain ⟨mem, -⟩ := findParent_some found
      obtain ⟨group, -, le⟩ := HbmConfig.nextAccess_ok checked.burst checked.interleave next
      have of : (s.numbered access).toLogicalAccess.Of parent.transaction :=
        ⟨group.of.parentId, group.of.op, group.of.arrivalTime, group.of.client, group.of.metadata⟩
      have fits : parent.admittedBytes + (s.numbered access).sizeBytes ≤
          parent.transaction.sizeBytes := by
        show parent.admittedBytes + access.sizeBytes ≤ _
        omega
      have charged := family.charge mem of fits access.address.flatChannel rfl
      rw [← family.map_eq_change mem rfl fun p => { p with
        admittedBytes := p.admittedBytes + (s.numbered access).sizeBytes
        remainingAccesses := p.remainingAccesses + 1 }] at charged
      exact ⟨charged, balanced.charge parent access _⟩
  | push _ slot => exact ⟨family, balanced.push slot _ _⟩
  | blocked => exact ⟨family, balanced.frame (fun _ => .refl _) rfl rfl fun _ => rfl⟩
  | close => exact ⟨family, balanced.frame (fun _ => .refl _) rfl rfl fun _ => rfl⟩
  | @credit s d channel access parent rest _ popped found _ _ calm =>
      have opened := Accounted.opened ⟨family, balanced⟩ popped found
      obtain ⟨mem, id⟩ := findParent_some found
      have idle : Family s.parents s.trace s.nextTicket s.now none := calm ▸ family
      have credited := idle.credit mem opened rfl
      rw [← family.map_eq_change mem id fun _ => creditAccess parent access channel s.now,
        id] at credited
      exact ⟨credited, balanced.credit popped opened⟩
  | retire found ripe finished admitted time =>
      exact ⟨family.retire (findParent_some found).1 ripe finished admitted time,
        balanced.frame (fun _ => .refl _) rfl rfl fun _ => rfl⟩
  | complete _ issued => exact ⟨family, balanced.complete issued⟩
  | announce => exact ⟨family, balanced.schedule fun _ => rfl⟩
  | @client s d at_ tag =>
      exact ⟨family, balanced.frame (fun ch =>
        ((flying_schedule s.scheduler.events rfl).append_right _).append_left _) rfl rfl
          fun _ => rfl⟩
  | reject => exact ⟨family, balanced.frame (fun _ => .refl _) rfl rfl fun _ => rfl⟩
  | setScript => exact ⟨family, balanced.frame (fun _ => .refl _) rfl rfl fun _ => rfl⟩
  | setCallbacks => exact ⟨family, balanced.frame (fun _ => .refl _) rfl rfl fun _ => rfl⟩
  | notify =>
      exact ⟨family.observe rfl, balanced.frame (fun _ => .refl _) rfl rfl fun _ => rfl⟩
  | return_ =>
      exact ⟨family.observe rfl, balanced.frame (fun _ => .refl _) rfl rfl fun _ => rfl⟩

/-- The first event of an ordered queue is not in the past. -/
theorem Scheduled.event_time (h : Scheduled cfg s) {event : Event EventCallback}
    {rest : List (Event EventCallback)} (next : s.scheduler.events = event :: rest) :
    s.now ≤ event.time :=
  h.ordered.future event (next ▸ List.mem_cons_self)

theorem clearWakeup_frame (c : HbmController) (at_ : Nat) :
    (c.clearWakeup at_).queued = c.queued ∧
      (c.clearWakeup at_).outstandingAccesses = c.outstandingAccesses := by
  unfold HbmController.clearWakeup
  split
  · exact ⟨rfl, rfl⟩
  · exact ⟨rfl, rfl⟩

theorem disarm_frame (c : HbmController) (due : Nat) :
    (c.disarm due).queued = c.queued ∧
      (c.disarm due).outstandingAccesses = c.outstandingAccesses := by
  unfold HbmController.disarm
  split
  · exact ⟨rfl, rfl⟩
  · exact ⟨rfl, rfl⟩

/-- Every turn keeps the ledger. -/
theorem Accounted.turn {p q : HbmSystem × Debts} (turn : Turn cfg p q)
    (scheduled : Scheduled cfg p.1) (h : Accounted p.1 p.2) : Accounted q.1 q.2 := by
  obtain ⟨family, balanced⟩ := h
  cases turn with
  | @wake s d event rest channel next callback =>
      have popped := balanced.pop next fun ch => by rw [callback]; rfl
      exact ⟨family.later (scheduled.event_time next),
        popped.update (modifyController_controllers (s.pop event rest) channel _)
          (clearWakeup_frame _ _).1 (clearWakeup_frame _ _).2 rfl rfl rfl rfl rfl rfl⟩
  | @refreshDue s d event rest channel next callback =>
      have popped := balanced.pop next fun ch => by rw [callback]; rfl
      exact ⟨family.later (scheduled.event_time next),
        popped.update (modifyController_controllers (s.pop event rest) channel _)
          (disarm_frame _ _).1 (disarm_frame _ _).2 rfl rfl rfl rfl rfl rfl⟩
  | accessDone next callback =>
      exact ⟨family.later (scheduled.event_time next), balanced.accessDone next callback⟩
  | @other s d event rest next callback =>
      have popped : Balanced (s.pop event rest) d := balanced.pop next fun ch => by
        rcases callback with ⟨_, h⟩ | ⟨_, h⟩ <;> rw [h] <;> rfl
      exact ⟨family.later (scheduled.event_time next),
        popped.frame (fun _ => .refl _) rfl rfl fun _ => rfl⟩
  | advance later =>
      exact ⟨family.later later, balanced.frame (fun _ => .refl _) rfl rfl fun _ => rfl⟩
  | escape => exact ⟨family, balanced.frame (fun _ => .refl _) rfl rfl fun _ => rfl⟩
  | lose _ step => exact ⟨family, balanced.lose step⟩

theorem accounted_initial : Accounted (initial cfg) {} where
  family := by
    constructor
    case legit => exact Chronicle.nil
    all_goals simp [initial, openAccesses]
  balanced := ⟨fun _ => .refl _, fun _ => rfl⟩

/-- Every point of a run is accounted for. -/
theorem HbmSystem.Run.accounted (checked : cfg.Checked) {p : HbmSystem × Debts} (run : Run cfg p) :
    Accounted p.1 p.2 := by
  induction run with
  | create => exact accounted_initial
  | move _ move ih => exact ih.move checked move
  | turn run turn ih => exact ih.turn turn run.scheduled

end

end HbmSim
