import HbmSim.System.Scheduling

/-!
Admission and submission as moves.

`pump_admissions` gives the free slots to the waiting parents in order. An access that
is charged is pushed in the same call, every touched channel gets its events, and the
parents that still wait are blocked.
-/

namespace HbmSim

open HbmSim.Lib HbmSystem Relation

section

variable {cfg : HbmConfig} {p q : HbmSystem × Debts} {s t : HbmSystem} {d : Debts}

/-! ### Refresh handling inside a call -/

/-- Steps of refresh handling are moves of the system. -/
theorem stirs {channel : Nat} (hchannel : channel < cfg.channelCount) {t : ControllerState}
    (steps : HbmController.Steps (cfg.channelConfig channel) cfg.mapper s.now (s.side channel) t)
    (alone : d.escaped = true ∨ ∀ x ∈ d.stirring, x.1 = channel) :
    ∃ wakes rearm stirring,
      Moves cfg (s, d)
        (s.update channel t, { d with wakes := wakes, rearm := rearm, stirring := stirring }) ∧
      (∀ ch ∈ wakes, ch = channel ∨ ch ∈ d.wakes) ∧ (∀ ch ∈ rearm, ch = channel ∨ ch ∈ d.rearm) ∧
      ((t = s.side channel ∧ stirring = d.stirring) ∨
        stirring = some (d.stirring.getD (channel, s.controllers channel))) := by
  induction steps with
  | refl =>
      refine ⟨d.wakes, d.rearm, d.stirring, ?_, fun _ => .inr, fun _ => .inr, .inl ⟨rfl, rfl⟩⟩
      rw [update_side]
  | @tail u t _ step ih =>
      obtain ⟨wakes, rearm, stirring, moves, hwakes, hrearm, hstirring⟩ := ih
      have step' : HbmController.ControllerStep (cfg.channelConfig channel) cfg.mapper
          (s.update channel u).now ((s.update channel u).side channel) t := by
        rw [side_update]
        exact step
      have alone' : d.escaped = true ∨ ∀ x ∈ stirring, x.1 = channel := by
        refine alone.imp_right fun alone => ?_
        rcases hstirring with ⟨-, rfl⟩ | rfl
        · exact alone
        · intro x hx
          obtain rfl := Option.some.inj hx
          cases h : d.stirring with
          | none => rfl
          | some y => exact alone y h
      have kept : some (stirring.getD (channel, (s.update channel u).controllers channel)) =
          some (d.stirring.getD (channel, s.controllers channel)) := by
        rcases hstirring with ⟨rfl, rfl⟩ | rfl
        · rw [update_side]
        · rfl
      refine ⟨channel :: wakes, channel :: rearm, _, ?_, fun ch h => ?_, fun ch h => ?_, .inr kept⟩
      · refine moves.tail ?_
        have move : Move cfg (s.update channel u, { d with
            wakes := wakes, rearm := rearm, stirring := stirring }) _ :=
          .stir hchannel step' alone'
        rwa [update_update] at move
      · rcases List.mem_cons.mp h with rfl | h
        · exact .inl rfl
        · exact hwakes ch h
      · rcases List.mem_cons.mp h with rfl | h
        · exact .inl rfl
        · exact hrearm ch h

/-- A step of the controller takes back no refresh. -/
theorem ControllerStep.raised_le {config : HbmControllerConfig} {mapper : HbmAddressMapper}
    {now : Nat} {s t : ControllerState} (step : HbmController.ControllerStep config mapper now s t) :
    s.ctl.raised.length ≤ t.ctl.raised.length := by
  cases step with
  | retouch touched =>
      exact Nat.le_of_eq (by rw [touched.ctl])
  | raise due =>
      show _ ≤ (s.ctl.raise config due).raised.length
      unfold HbmController.raise
      split <;> exact Nat.le_succ _
  | advanceDue => exact Nat.le_refl _
  | maintain step => exact Nat.le_of_eq (by rw [step.frame])
  | row step => exact Nat.le_of_eq (by rw [step.frame])

/-- No obligation is taken back. -/
theorem Steps.raised_le {config : HbmControllerConfig} {mapper : HbmAddressMapper} {now : Nat}
    {s t : ControllerState} (steps : HbmController.Steps config mapper now s t) :
    s.ctl.raised.length ≤ t.ctl.raised.length := by
  induction steps with
  | refl => exact Nat.le_refl _
  | tail _ step ih => exact Nat.le_trans ih (ControllerStep.raised_le step)

/-- Refresh handling that returns has kept the cadence. -/
theorem stirs_calm {channel : Nat} (hchannel : channel < cfg.channelCount) {t : ControllerState}
    (steps : HbmController.Steps (cfg.channelConfig channel) cfg.mapper s.now (s.side channel) t)
    (alone : d.escaped = true ∨ d.stirring = none)
    (keeps : KeepsCadence (cfg.channelConfig channel) s.now (s.controllers channel) t.ctl)
    (started : (s.controllers channel).nextRefreshDue = none → t.ctl.nextRefreshDue = none ∨
      ∃ a ∈ d.slots, a.address.flatChannel = channel) :
    ∃ wakes rearm stirring,
      Moves cfg (s, d)
        (s.update channel t, { d with wakes := wakes, rearm := rearm, stirring := stirring }) ∧
      (∀ ch ∈ wakes, ch = channel ∨ ch ∈ d.wakes) ∧ (∀ ch ∈ rearm, ch = channel ∨ ch ∈ d.rearm) ∧
      (d.escaped = true ∨ stirring = none) := by
  obtain ⟨wakes, rearm, stirring, moves, hwakes, hrearm, hstirring⟩ :=
    stirs hchannel steps (alone.imp_right fun none x hx => by rw [none] at hx; cases hx)
  rcases alone with lost | none
  · exact ⟨wakes, rearm, stirring, moves, hwakes, hrearm, .inl lost⟩
  · rcases hstirring with ⟨-, rfl⟩ | rfl
    · exact ⟨wakes, rearm, _, moves, hwakes, hrearm, .inr none⟩
    · refine ⟨wakes, rearm, .none, moves.tail ?_, hwakes, hrearm, .inr rfl⟩
      have before : some (d.stirring.getD (channel, s.controllers channel)) =
          some (channel, s.controllers channel) := by rw [none]; rfl
      have same : (s.update channel t).controllers channel = t.ctl := by simp
      exact .calm hchannel before (by rw [same]; exact keeps) (by rw [same]; exact Steps.raised_le steps)
        (by rw [same]; exact started)

/-! ### Admitting one access -/

/-- What one admitted access has changed. -/
structure AccessAdmitted (parent : ParentRequest) (access : HbmAccess) (p q : HbmSystem × Debts) :
    Prop where
  sameStacks : SameStacks p.2 q.2
  loose : q.2.loose = p.2.loose
  closing : q.2.closing =
    if parent.admittedBytes + access.sizeBytes = parent.transaction.sizeBytes
    then some parent.transaction.id else none
  stirring : p.2.escaped = true ∨ q.2.stirring = none
  wakes : ∀ ch ∈ q.2.wakes, ch = access.address.flatChannel ∨ ch ∈ p.2.wakes
  rearm : ∀ ch ∈ q.2.rearm, ch = access.address.flatChannel ∨ ch ∈ p.2.rearm
  pending : q.1.pendingAdmissions = p.1.pendingAdmissions
  parents : q.1.parents = p.1.parents.map fun r =>
    if r.transaction.id = parent.transaction.id then
      { r with
        admittedBytes := r.admittedBytes + access.sizeBytes
        remainingAccesses := r.remainingAccesses + 1 }
    else r
  busy : ∀ ch, ch = access.address.flatChannel ∨ (p.1.controllers ch).outstandingAccesses ≠ 0 →
    (q.1.controllers ch).outstandingAccesses ≠ 0

theorem Steps.marks {config : HbmControllerConfig} {mapper : HbmAddressMapper} {now : Nat}
    {s t : ControllerState} (steps : HbmController.Steps config mapper now s t) :
    SameMarks s.ctl t.ctl := by
  induction steps with
  | refl => exact ⟨rfl, rfl, rfl, rfl, rfl⟩
  | tail _ step ih =>
      have marks := step.marks
      exact ⟨marks.wakeupAt.trans ih.wakeupAt, marks.refreshDueAt.trans ih.refreshDueAt,
        marks.outstandingAccesses.trans ih.outstandingAccesses,
        marks.reservedReads.trans ih.reservedReads, marks.reservedWrites.trans ih.reservedWrites⟩

/-- What refresh handling may throw is excusable at the state it leaves. -/
theorem excusable_blamed {channel : Nat} (hchannel : channel < cfg.channelCount) {e : HbmError}
    {t : ControllerState} (now : s.now = p.1.now) (at_ : p.1 = s.update channel t)
    (blamed : HbmController.Blamed (cfg.channelConfig channel) cfg.mapper s.now e t.ctl) :
    Excusable cfg e p := by
  rcases blamed with excused | ⟨-, wrapped | passed⟩
  · rcases excused with overflow | ⟨range, irregular⟩
    · exact .inl overflow
    · exact .inr (.inr (.inl ⟨range, fun covered => irregular (covered.regular channel hchannel)⟩))
  · refine .inr (.inl (.inr ⟨channel, hchannel, ?_⟩))
    rw [at_]
    simpa using wrapped
  · exact .inr (.inl (.inl (now ▸ passed)))

theorem push_update (s : HbmSystem) (access : HbmAccess) (t : ControllerState) :
    (s.update access.address.flatChannel t).push cfg access =
      s.update access.address.flatChannel
        (HbmController.pushed (cfg.channelConfig access.address.flatChannel) t
          { access with enqueuedAt := access.arrivalTime }) := by
  unfold HbmSystem.push
  rw [side_update, update_update]

/-- What is owed once the access is charged and nothing else is done. -/
def Debts.charged (d : Debts) (s : HbmSystem) (parent : ParentRequest) (access : HbmAccess) :
    Debts :=
  { d with
    slots := s.numbered access :: d.slots
    closing := if parent.admittedBytes + access.sizeBytes = parent.transaction.sizeBytes
      then some parent.transaction.id else none }

/-- The system once the access is charged, its channel has gone through refresh handling and the
access is pushed. -/
def admitted (cfg : HbmConfig) (s : HbmSystem) (parent : ParentRequest) (access : HbmAccess)
    (t : ControllerState) : HbmSystem :=
  (s.charge parent access).update access.address.flatChannel
    (HbmController.pushed (cfg.channelConfig access.address.flatChannel) t
      { s.numbered access with enqueuedAt := access.arrivalTime })

/-- The charged access can be pushed once its channel is prepared. -/
theorem push_prepared {parent : ParentRequest} {access : HbmAccess} {t : ControllerState}
    {wakes rearm : List Nat} {stirring : Option (Nat × HbmController)}
    (run : Run cfg ((s.charge parent access).update access.address.flatChannel t,
      { d.charged s parent access with wakes := wakes, rearm := rearm, stirring := stirring }))
    (hchannel : access.address.flatChannel < cfg.channelCount)
    (group : HbmConfig.Group cfg parent.transaction access) (arrived : access.arrivalTime ≤ s.now)
    (slot : t.ctl.reservedSlots access.op.isWrite ≠ 0)
    (prepared : cfg.controller.refreshInterval ≠ 0 →
      t.ctl.nextRefreshDue ≠ none ∧ ∀ due, t.ctl.nextRefreshDue = some due → s.now < due)
    (calm : d.escaped = true ∨ stirring = none) :
    Move cfg ((s.charge parent access).update access.address.flatChannel t,
        { d.charged s parent access with wakes := wakes, rearm := rearm, stirring := stirring })
      (admitted cfg s parent access t,
        { d.charged s parent access with
          slots := d.slots
          wakes := access.address.flatChannel :: wakes
          rearm := access.address.flatChannel :: rearm
          stirring := stirring }) := by
  let u := (s.charge parent access).update access.address.flatChannel t
  have here : u.controllers access.address.flatChannel = t.ctl := if_pos rfl
  have result : u.push cfg (s.numbered access) = admitted cfg s parent access t :=
    push_update (s.charge parent access) (s.numbered access) t
  rw [← result]
  refine .push (s := u) hchannel rfl ?slot rfl ?blank ⟨rfl, group.mapped⟩ arrived ?future ?started
    calm
  case slot => exact here.symm ▸ slot
  case blank =>
    show ({ access with sequence := s.nextAccessSequence } : HbmAccess) = _
    rw [group.blank]
    rfl
  case future =>
    intro due hdue
    by_cases interval : cfg.controller.refreshInterval = 0
    · exact absurd interval (run.refresh_on hdue)
    · exact (prepared interval).2 due (here ▸ hdue)
  case started => exact fun interval => here.symm ▸ (prepared interval).1

/-- What has changed once the charged access is pushed. -/
theorem admitted_changes {parent : ParentRequest} {access : HbmAccess} {t : ControllerState}
    {wakes rearm : List Nat} {stirring : Option (Nat × HbmController)}
    (hwakes : ∀ ch ∈ wakes, ch = access.address.flatChannel ∨ ch ∈ d.wakes)
    (hrearm : ∀ ch ∈ rearm, ch = access.address.flatChannel ∨ ch ∈ d.rearm)
    (calm : d.escaped = true ∨ stirring = none) :
    AccessAdmitted parent access (s, d) (admitted cfg s parent access t,
      { d.charged s parent access with
        slots := d.slots
        wakes := access.address.flatChannel :: wakes
        rearm := access.address.flatChannel :: rearm
        stirring := stirring }) where
  sameStacks := ⟨rfl, rfl, rfl, rfl, rfl, rfl, rfl⟩
  loose := rfl
  closing := rfl
  stirring := calm
  wakes ch h := by
    rcases List.mem_cons.mp h with rfl | h
    · exact .inl rfl
    · exact hwakes ch h
  rearm ch h := by
    rcases List.mem_cons.mp h with rfl | h
    · exact .inl rfl
    · exact hrearm ch h
  pending := rfl
  parents := rfl
  busy ch h := by
    unfold admitted
    rw [update_controllers]
    split
    · exact Nat.succ_ne_zero _
    · rename_i hne
      rw [charge_controllers, if_neg hne]
      exact h.resolve_left hne

/-- Admitting one access: charge, reserve, catch up on refreshes, push. -/
theorem admitAccess_obeys (checked : cfg.Checked) {parent : ParentRequest} {access : HbmAccess}
    {done rest : List Nat} (run : Run cfg (s, d)) (ripe : d.ripe = none)
    (hchannel : access.address.flatChannel < cfg.channelCount)
    (found : s.findParent parent.transaction.id = some parent)
    (waiting : s.pendingAdmissions = done ++ parent.transaction.id :: rest)
    (older : d.escaped = true ∨ ∀ id ∈ done, id ∉ d.loose)
    (unfinished : parent.admittedBytes < parent.transaction.sizeBytes)
    (next : cfg.nextAccess parent.transaction parent.admittedBytes = .ok access)
    (free : (s.controllers access.address.flatChannel).free
      (cfg.channelConfig access.address.flatChannel) access.op.isWrite = true)
    (closed : d.escaped = true ∨ d.closing = none)
    (calm : d.escaped = true ∨ d.stirring = none) :
    Obeys cfg (admitAccess cfg parent access) (fun _ q => AccessAdmitted parent access (s, d) q)
      (s, d) := by
  obtain ⟨group, -, -⟩ := HbmConfig.nextAccess_ok checked.burst checked.interleave next
  have charge : Move cfg (s, d) (s.charge parent access, d.charged s parent access) :=
    .charge hchannel found waiting older unfinished next free closed
  have charged := run.move charge
  obtain ⟨mem, -⟩ := findParent_some found
  have arrived : access.arrivalTime ≤ s.now := by
    rw [group.of.arrivalTime]
    exact (run.accounted checked).family.arrived parent mem
  unfold admitAccess Obeys Follows
  simp only [exits_bind, exits_get, exits_set, HbmOp.beq_read, Bool.not_not]
  rw [onController_exits hchannel]
  refine (HbmController.reserve_exits free).mono (fun _ u h => ?_) (fun _ _ h => h.elim)
  subst h
  show Exits (onController cfg access.address.flatChannel (HbmController.admitReserved
    (cfg.channelConfig access.address.flatChannel) cfg.mapper (s.numbered access) s.now)) _ _
    (s.charge parent access)
  rw [onController_exits hchannel]
  unfold HbmController.admitReserved
  rw [exits_bind]
  refine (HbmController.prepareRefreshForArrival_exits (checked.wiring _)
    (charged.sound checked _)).mono (fun _ t h => ?_) (fun e t h => ?_)
  · obtain ⟨steps, prepared, keeps⟩ := h
    obtain ⟨wakes, rearm, stirring, moves, hwakes, hrearm, quiet⟩ :=
      stirs_calm (s := s.charge parent access) (d := d.charged s parent access) hchannel steps calm
        keeps fun _ => .inr ⟨_, List.mem_cons_self, rfl⟩
    have slot : t.ctl.reservedSlots access.op.isWrite ≠ 0 := by
      rw [(Steps.marks steps).reservedSlots, side_ctl, charge_controllers, if_pos rfl,
        HbmController.reserved_slots, if_pos rfl]
      exact Nat.succ_ne_zero _
    refine (HbmController.pushReserved_exits (a := { s.numbered access with
      enqueuedAt := access.arrivalTime }) slot).mono (fun _ u h => ?_) (fun _ _ h => h.elim)
    subst h
    have push := push_prepared (charged.moves moves) hchannel group arrived slot prepared quiet
    exact ⟨_, (ReflTransGen.single charge).trans (moves.tail push),
      admitted_changes hwakes hrearm quiet⟩
  · obtain ⟨steps, blamed⟩ := h
    obtain ⟨wakes, rearm, stirring, moves, -⟩ :=
      stirs (s := s.charge parent access) (d := d.charged s parent access) hchannel steps
        (calm.imp_right fun none x (hx : x ∈ d.stirring) => by rw [none] at hx; cases hx)
    refine ⟨_, (ReflTransGen.single charge).trans moves, ripe, .here ?_⟩
    exact excusable_blamed (s := s.charge parent access) hchannel rfl rfl blamed

/-! ### Admitting a parent -/

/-- The duty to stop waiting of a parent that is fully admitted. -/
def closingOf (s : HbmSystem) (id : Nat) : Option Nat :=
  match s.findParent id with
  | some parent =>
      if parent.admittedBytes = parent.transaction.sizeBytes then some id else none
  | none => none

/-- What the accesses of one parent have changed. -/
structure ParentServed (cfg : HbmConfig) (id : Nat) (touched touched' : List Nat)
    (p q : HbmSystem × Debts) : Prop where
  sameStacks : SameStacks p.2 q.2
  wakes : ∀ ch ∈ q.2.wakes, ch ∈ touched' ∨ ch ∈ p.2.wakes
  rearm : ∀ ch ∈ q.2.rearm, ch ∈ touched' ∨ ch ∈ p.2.rearm
  touched : ∀ ch ∈ touched, ch ∈ touched'
  live : Touched cfg q.1 touched'
  pending : q.1.pendingAdmissions = p.1.pendingAdmissions
  loose : ∀ i ∈ q.2.loose, i ∈ p.2.loose
  stirring : p.2.escaped = true ∨ q.2.stirring = none
  closing : p.2.escaped = true ∨ q.2.closing = closingOf q.1 id
  served : ∀ parent, q.1.findParent id = some parent →
    parent.admittedBytes < parent.transaction.sizeBytes → id ∉ q.2.loose

theorem ParentServed.refl {id : Nat} {touched : List Nat} (live : Touched cfg p.1 touched)
    (calm : p.2.escaped = true ∨ p.2.stirring = none)
    (closing : p.2.escaped = true ∨ p.2.closing = closingOf p.1 id)
    (served : ∀ parent, p.1.findParent id = some parent →
      parent.admittedBytes < parent.transaction.sizeBytes → id ∉ p.2.loose) :
    ParentServed cfg id touched touched p p :=
  ⟨.refl _, fun _ => .inr, fun _ => .inr, fun _ h => h, live, rfl, fun _ h => h, calm, closing,
    served⟩

/-- Serving a parent after one of its accesses is admitted. -/
theorem ParentServed.after {id : Nat} {parent : ParentRequest} {access : HbmAccess}
    {touched touched' : List Nat} {r : HbmSystem × Debts}
    (first : AccessAdmitted parent access p q)
    (h : ParentServed cfg id (access.address.flatChannel :: touched) touched' q r) :
    ParentServed cfg id touched touched' p r where
  sameStacks := first.sameStacks.trans h.sameStacks
  wakes ch hch := by
    rcases h.wakes ch hch with new | old
    · exact .inl new
    · rcases first.wakes ch old with rfl | old
      · exact .inl (h.touched _ List.mem_cons_self)
      · exact .inr old
  rearm ch hch := by
    rcases h.rearm ch hch with new | old
    · exact .inl new
    · rcases first.rearm ch old with rfl | old
      · exact .inl (h.touched _ List.mem_cons_self)
      · exact .inr old
  touched ch hch := h.touched ch (List.mem_cons_of_mem _ hch)
  live := h.live
  pending := h.pending.trans first.pending
  loose i hi := first.loose ▸ h.loose i hi
  stirring := first.sameStacks.escaped ▸ h.stirring
  closing := first.sameStacks.escaped ▸ h.closing
  served := h.served

/-- The parent an admitted access was charged to. -/
theorem AccessAdmitted.findParent {parent : ParentRequest} {access : HbmAccess}
    (h : AccessAdmitted parent access p q)
    (found : p.1.findParent parent.transaction.id = some parent) :
    q.1.findParent parent.transaction.id = some { parent with
      admittedBytes := parent.admittedBytes + access.sizeBytes
      remainingAccesses := parent.remainingAccesses + 1 } := by
  unfold HbmSystem.findParent at found ⊢
  rw [h.parents, List.find?_map]
  have same : ((fun r : ParentRequest => r.transaction.id == parent.transaction.id) ∘
      fun r => if r.transaction.id = parent.transaction.id then
        { r with
          admittedBytes := r.admittedBytes + access.sizeBytes
          remainingAccesses := r.remainingAccesses + 1 }
      else r) = fun r => r.transaction.id == parent.transaction.id := by
    funext r
    show ((if r.transaction.id = parent.transaction.id then _ else r : ParentRequest).transaction.id
      == _) = _
    split <;> rfl
  rw [same, found]
  simp

/-- An id that waits belongs to a parent. -/
theorem parent_of_waiting (checked : cfg.Checked) (run : Run cfg p) (id : Nat)
    (waits : id ∈ p.1.pendingAdmissions) :
    p.2.escaped = true ∨ ∃ parent, p.1.findParent id = some parent := by
  refine (run.waiting checked).imp_right fun waiting => ?_
  rw [waiting.pending] at waits
  obtain ⟨parent, mem, rfl⟩ := List.mem_map.mp waits
  cases found : p.1.findParent parent.transaction.id with
  | some other => exact ⟨other, rfl⟩
  | none =>
      refine absurd (List.find?_eq_none.mp found parent (List.mem_filter.mp mem).1) ?_
      simp

/-- Mapping fails only outside the address range. -/
theorem map_error_range {m : HbmAddressMapper} {byte : Nat} {e : HbmError}
    (run : m.map byte = .error e) : e.isRange = true := by
  unfold HbmAddressMapper.map at run
  dsimp only at run
  split at run
  · cases run
    rfl
  · cases run

/-- An address that does not map is excusable. -/
theorem excusable_map {byte : Nat} {e : HbmError} (run : cfg.mapper.map byte = .error e) :
    Excusable cfg e p := by
  refine .inr (.inr (.inl ⟨map_error_range run, fun covered => ?_⟩))
  obtain ⟨a, ok⟩ := covered.total byte
  exact nomatch run.symm.trans ok

/-- A parent's accesses are admitted while they fit, and no other parent is touched. -/
theorem admitParent_obeys (checked : cfg.Checked) (count : cfg.channelCount ≠ 0) {id : Nat}
    {done rest : List Nat} (rounds : Nat) {touched : List Nat} {p : HbmSystem × Debts}
    (run : Run cfg p) (ripe : p.2.ripe = none)
    (pending : p.1.pendingAdmissions = done ++ id :: rest)
    (older : p.2.escaped = true ∨ ∀ i ∈ done, i ∉ p.2.loose)
    (calm : p.2.escaped = true ∨ p.2.stirring = none)
    (closing : p.2.escaped = true ∨ p.2.closing = closingOf p.1 id)
    (live : Touched cfg p.1 touched)
    (enough : ∀ parent, p.1.findParent id = some parent →
      parent.transaction.sizeBytes - parent.admittedBytes ≤ rounds) :
    Obeys cfg (admitParent cfg id rounds touched)
      (fun touched' q => ParentServed cfg id touched touched' p q) p := by
  unfold admitParent
  refine Follows.get ?_
  cases found : p.1.findParent id with
  | none =>
      refine Obeys.throw ripe (.inr (.inr (.inr ⟨rfl, ?_⟩)))
      rcases parent_of_waiting checked run id (by simp [pending]) with lost | ⟨parent, h⟩
      · exact lost
      · exact nomatch found.symm.trans h
  | some parent =>
      obtain ⟨mem, rfl⟩ := findParent_some found
      have fits := (run.accounted checked).family.fits parent mem
      dsimp only
      by_cases unfinished : parent.admittedBytes < parent.transaction.sizeBytes
      · rw [if_pos unfinished]
        have bound := enough parent found
        cases rounds with
        | zero => omega
        | succ rounds =>
            refine Obeys.ofExcept (fun access next => ?_) fun e error => ?_
            · obtain ⟨group, positive, le⟩ :=
                HbmConfig.nextAccess_ok checked.burst checked.interleave next
              obtain ⟨byte, hmap⟩ := group.mapped
              have hchannel := HbmConfig.map_channel count hmap
              refine Obeys.query hchannel (g := fun t => t.ctl.canReserve _ _ _) ?_
              rw [HbmOp.beq_read, Bool.not_not, side_ctl]
              have closed : p.2.escaped = true ∨ p.2.closing = none := by
                refine closing.imp_right fun closing => ?_
                rw [closing, closingOf, found]
                exact if_neg (Nat.ne_of_lt unfinished)
              cases free : (p.1.controllers access.address.flatChannel).canReserve
                  (cfg.channelConfig access.address.flatChannel) (!access.op.isWrite).toNat
                  access.op.isWrite.toNat with
              | false =>
                  refine Follows.ghost (.single (.blocked found unfinished next free)) rfl ?_
                  refine Follows.pure ⟨⟨rfl, rfl, rfl, rfl, rfl, rfl, rfl⟩, fun _ => .inr,
                    fun _ => .inr, fun _ => id, live, rfl, fun i hi => (List.mem_filter.mp hi).1,
                    calm, closing, fun _ _ _ loose => ?_⟩
                  simpa using (List.mem_filter.mp loose).2
              | true =>
                  refine Follows.bind (admitAccess_obeys checked run ripe hchannel found pending
                    older unfinished next free closed calm) ?_
                  rintro - q moves admitted
                  have found' := admitted.findParent found
                  have live' : Touched cfg q.1 (access.address.flatChannel :: touched) := by
                    intro ch hch
                    rcases List.mem_cons.mp hch with rfl | hch
                    · exact ⟨hchannel, admitted.busy _ (.inl rfl)⟩
                    · exact ⟨(live ch hch).1, admitted.busy ch (.inr (live ch hch).2)⟩
                  have escaped := admitted.sameStacks.escaped
                  refine (admitParent_obeys checked count rounds (run.moves moves)
                    (admitted.sameStacks.ripe.trans ripe) (admitted.pending.trans pending)
                    (by rw [escaped, admitted.loose]; exact older)
                    (escaped ▸ admitted.stirring) (.inr ?_) live' ?_).mono ?_
                  · rw [admitted.closing, closingOf, found']
                  · intro parent' h
                    obtain rfl := Option.some.inj (found'.symm.trans h)
                    show parent.transaction.sizeBytes - (parent.admittedBytes + access.sizeBytes) ≤
                      _
                    omega
                  · intro touched' r _ served
                    exact served.after admitted
            · refine ⟨ripe, ?_⟩
              have range := (run.accounted checked).family.range parent mem
              obtain ⟨byte, hmap⟩ := HbmConfig.nextAccess_error checked.burst checked.interleave range
                unfinished error
              exact excusable_map hmap
      · rw [if_neg unfinished]
        refine Follows.pure (.refl live calm closing fun parent' h less => ?_)
        obtain rfl := Option.some.inj (found.symm.trans h)
        exact absurd less unfinished
termination_by rounds

/-! ### Pumping admissions -/

/-- What serving the waiting parents has changed. -/
structure PendingServed (cfg : HbmConfig) (ids touched touched' : List Nat)
    (p q : HbmSystem × Debts) : Prop where
  sameStacks : SameStacks p.2 q.2
  wakes : ∀ ch ∈ q.2.wakes, ch ∈ touched' ∨ ch ∈ p.2.wakes
  rearm : ∀ ch ∈ q.2.rearm, ch ∈ touched' ∨ ch ∈ p.2.rearm
  touched : ∀ ch ∈ touched, ch ∈ touched'
  live : Touched cfg q.1 touched'
  loose : p.2.escaped = true ∨ ∀ i ∈ q.2.loose, i ∈ p.2.loose ∧ i ∉ ids
  stirring : p.2.escaped = true ∨ q.2.stirring = none
  closing : p.2.escaped = true ∨ q.2.closing = none

/-- Erasing one occurrence of an id, wherever the first one is. -/
theorem erase_waiting (done : List Nat) (id : Nat) (rest : List Nat) :
    ∃ done', (done ++ id :: rest).erase id = done' ++ rest ∧ ∀ i ∈ done', i ∈ done ∨ i = id := by
  by_cases mem : id ∈ done
  · refine ⟨done.erase id ++ [id], ?_, fun i hi => ?_⟩
    · rw [List.erase_append_left _ mem, List.append_assoc]
      rfl
    · rcases List.mem_append.mp hi with hi | hi
      · exact .inl (List.mem_of_mem_erase hi)
      · exact .inr (List.mem_singleton.mp hi)
  · refine ⟨done, ?_, fun i hi => .inl hi⟩
    rw [List.erase_append_right _ mem, List.erase_cons_head]

/-- The step of the outer loop after the accesses of a parent: a fully admitted
parent stops waiting. -/
theorem closeParent_obeys (checked : cfg.Checked) {id : Nat} {done rest : List Nat}
    {touched touched' : List Nat} (run : Run cfg q)
    (pending : p.1.pendingAdmissions = done ++ id :: rest)
    (older : p.2.escaped = true ∨ ∀ i ∈ done, i ∉ p.2.loose)
    (served : ParentServed cfg id touched touched' p q) :
    Obeys cfg
      (modify fun s =>
        match s.findParent id with
        | some parent =>
            if parent.admittedBytes = parent.transaction.sizeBytes then
              { s with pendingAdmissions := s.pendingAdmissions.erase id }
            else s
        | none => s)
      (fun _ r => PendingServed cfg [id] touched touched' p r ∧
        ∃ done', r.1.pendingAdmissions = done' ++ rest ∧
          (p.2.escaped = true ∨ ∀ i ∈ done', i ∉ r.2.loose)) q := by
  have escaped := served.sameStacks.escaped
  have pending' := served.pending.trans pending
  have kept : ∀ {loose done' : List Nat}, (∀ i ∈ loose, i ∈ q.2.loose) →
      (p.2.escaped = true ∨ id ∉ loose) → (∀ i ∈ done', i ∈ done ∨ i = id) →
        p.2.escaped = true ∨ ∀ i ∈ done', i ∉ loose := by
    intro loose done' fewer gone sub
    rcases older with lost | older
    · exact .inl lost
    rcases gone with lost | gone
    · exact .inl lost
    refine .inr fun i hi mem => ?_
    rcases sub i hi with hi | rfl
    · exact older i hi (served.loose i (fewer i mem))
    · exact gone mem
  have stay : ∀ i ∈ done ++ [id], i ∈ done ∨ i = id := by simp
  unfold Obeys Follows
  rw [exits_modify]
  -- a pending id that is no parent is left behind by an exception only
  cases found : q.1.findParent id with
  | none =>
      have lost : p.2.escaped = true := by
        rcases parent_of_waiting checked run id (by simp [pending']) with lost | ⟨parent, h⟩
        · exact escaped ▸ lost
        · exact nomatch found.symm.trans h
      refine ⟨q.2, .refl, ⟨served.sameStacks, served.wakes, served.rearm, served.touched,
        served.live,
        .inl lost, .inl lost, .inl lost⟩, done ++ [id], ?_, .inl lost⟩
      rw [pending', List.append_assoc]
      rfl
  | some parent =>
      obtain ⟨-, rfl⟩ := findParent_some found
      dsimp only
      by_cases finished : parent.admittedBytes = parent.transaction.sizeBytes
      · rw [if_pos finished]
        have closes : q.2.escaped = true ∨ q.2.closing = some parent.transaction.id := by
          rw [escaped]
          refine served.closing.imp_right fun closing => ?_
          rw [closing, closingOf, found]
          exact if_pos finished
        obtain ⟨done', split, sub⟩ := erase_waiting done parent.transaction.id rest
        refine ⟨_, .single (.close found finished closes), ⟨⟨escaped, served.sameStacks.slots,
          served.sameStacks.issued, served.sameStacks.finishing, served.sameStacks.ripe,
            served.sameStacks.retired,
          served.sameStacks.lost⟩, served.wakes, served.rearm, served.touched, served.live, .inr ?_,
          served.stirring, .inr rfl⟩, done', ?_, ?_⟩
        · intro i hi
          obtain ⟨hi, other⟩ := List.mem_filter.mp hi
          exact ⟨served.loose i hi, by simpa using other⟩
        · show q.1.pendingAdmissions.erase _ = _
          rw [pending']
          exact split
        · refine kept (fun i hi => (List.mem_filter.mp hi).1) (.inr fun h => ?_) sub
          simpa using (List.mem_filter.mp h).2
      · rw [if_neg finished]
        by_cases lost : p.2.escaped = true
        · refine ⟨q.2, .refl, ⟨served.sameStacks, served.wakes, served.rearm, served.touched,
            served.live, .inl lost, .inl lost, .inl lost⟩, done ++ [parent.transaction.id], ?_,
            .inl lost⟩
          rw [pending', List.append_assoc]
          rfl
        -- the parent stays in line: it was served until its next access found no slot
        have fits := (run.accounted checked).family.fits parent (findParent_some found).1
        have gone := served.served parent found (Nat.lt_of_le_of_ne fits finished)
        refine ⟨q.2, .refl, ⟨served.sameStacks, served.wakes, served.rearm, served.touched,
          served.live,
          .inr fun i hi => ⟨served.loose i hi, ?_⟩, served.stirring, ?_⟩,
          done ++ [parent.transaction.id], ?_, kept (fun _ h => h) (.inr gone) stay⟩
        · rw [List.mem_singleton]
          rintro rfl
          exact gone hi
        · refine .inr ((served.closing.resolve_left lost).trans ?_)
          rw [closingOf, found]
          exact if_neg finished
        · rw [pending', List.append_assoc]
          rfl

theorem PendingServed.trans {ids ids' touched touched' touched'' : List Nat}
    {r : HbmSystem × Debts} (h : PendingServed cfg ids touched touched' p q)
    (h' : PendingServed cfg ids' touched' touched'' q r) :
    PendingServed cfg (ids ++ ids') touched touched'' p r where
  sameStacks := h.sameStacks.trans h'.sameStacks
  wakes ch hch := by
    rcases h'.wakes ch hch with new | old
    · exact .inl new
    · exact (h.wakes ch old).imp_left (h'.touched ch)
  rearm ch hch := by
    rcases h'.rearm ch hch with new | old
    · exact .inl new
    · exact (h.rearm ch old).imp_left (h'.touched ch)
  touched ch hch := h'.touched ch (h.touched ch hch)
  live := h'.live
  loose := by
    rcases h.loose with lost | first
    · exact .inl lost
    rcases h'.loose with lost | second
    · exact .inl (h.sameStacks.escaped ▸ lost)
    refine .inr fun i hi => ?_
    obtain ⟨before, new⟩ := second i hi
    obtain ⟨start, old⟩ := first i before
    exact ⟨start, fun mem => (List.mem_append.mp mem).elim old new⟩
  stirring := h.sameStacks.escaped ▸ h'.stirring
  closing := h.sameStacks.escaped ▸ h'.closing

/-- The pending parents are served in their order. -/
theorem admitPending_obeys (checked : cfg.Checked) (count : cfg.channelCount ≠ 0) (ids : List Nat)
    (done touched : List Nat) {p : HbmSystem × Debts} (run : Run cfg p) (ripe : p.2.ripe = none)
    (pending : p.1.pendingAdmissions = done ++ ids)
    (older : p.2.escaped = true ∨ ∀ i ∈ done, i ∉ p.2.loose)
    (calm : p.2.escaped = true ∨ p.2.stirring = none)
    (closing : p.2.escaped = true ∨ p.2.closing = none) (live : Touched cfg p.1 touched) :
    Obeys cfg (admitPending cfg ids touched)
      (fun touched' q => PendingServed cfg ids touched touched' p q) p := by
  induction ids generalizing p done touched with
  | nil =>
      refine Follows.pure ⟨.refl _, fun _ => .inr, fun _ => .inr, fun _ h => h, live, .inr ?_, calm,
        closing⟩
      exact fun i hi => ⟨hi, List.not_mem_nil⟩
  | cons id rest ih =>
      unfold admitPending
      refine Follows.get ?_
      have waits : id ∈ p.1.pendingAdmissions := by simp [pending]
      have closing' : p.2.escaped = true ∨ p.2.closing = closingOf p.1 id := by
        rcases closing with lost | closing
        · exact .inl lost
        rcases run.waiting checked with lost | waiting
        · exact .inl lost
        refine .inr (closing.trans ?_)
        unfold closingOf
        cases found : p.1.findParent id with
        | none => rfl
        | some parent =>
            obtain ⟨mem, same⟩ := findParent_some found
            rw [waiting.pending] at waits
            obtain ⟨parent', mem', same'⟩ := List.mem_map.mp waits
            obtain ⟨mem', unfinished⟩ := List.mem_filter.mp mem'
            obtain rfl := (run.accounted checked).family.eq_of_id mem mem' (same.trans same'.symm)
            have unfinished : parent.admittedBytes < parent.transaction.sizeBytes := by
              simpa [Debts.waits, closing] using unfinished
            exact (if_neg (Nat.ne_of_lt unfinished)).symm
      refine Follows.bind (admitParent_obeys checked count _ run ripe pending older calm closing' live
        fun parent found => ?_) ?_
      · rw [found]
        exact Nat.sub_le _ _
      intro touched' q moves served
      refine Follows.bind (closeParent_obeys checked (run.moves moves) pending older served) ?_
      rintro - r moves' ⟨closed, done', split, older'⟩
      have escaped := closed.sameStacks.escaped
      refine (ih _ _ ((run.moves moves).moves moves') (closed.sameStacks.ripe.trans ripe) split
        (escaped ▸ older') (escaped ▸ closed.stirring) (escaped ▸ closed.closing) closed.live).mono ?_
      intro touched'' u _ later
      exact closed.trans later

/-- What `pump_admissions` has changed. -/
structure Pumped (p q : HbmSystem × Debts) : Prop where
  sameStacks : SameStacks p.2 q.2
  wakes : ∀ ch ∈ q.2.wakes, ch ∈ p.2.wakes
  rearm : ∀ ch ∈ q.2.rearm, ch ∈ p.2.rearm
  loose : p.2.escaped = true ∨ ∀ i ∈ q.2.loose, i ∈ p.2.loose ∧ i ∉ p.1.pendingAdmissions
  stirring : p.2.escaped = true ∨ q.2.stirring = none
  closing : p.2.escaped = true ∨ q.2.closing = none

/-- Pumping serves all pending parents, and leaves each touched channel a wake. -/
theorem pumpAdmissions_obeys (checked : cfg.Checked) (count : cfg.channelCount ≠ 0)
    (run : Run cfg p) (ripe : p.2.ripe = none) (calm : p.2.escaped = true ∨ p.2.stirring = none)
    (closing : p.2.escaped = true ∨ p.2.closing = none) :
    Obeys cfg (pumpAdmissions cfg) (fun _ q => Pumped p q) p := by
  unfold pumpAdmissions
  refine Follows.get ?_
  refine Follows.bind (admitPending_obeys checked count p.1.pendingAdmissions [] [] run ripe rfl
    (.inr nofun) calm closing nofun) ?_
  intro touched q moves served
  refine (wakeTouched_obeys (List.range cfg.channelCount) (run.moves moves)
    (served.sameStacks.ripe.trans ripe) served.live).mono ?_
  rintro - r - ⟨wakes, rearm, hr, -, hwakes, hrearm⟩
  have all : ∀ ch, ch ∈ touched → ch ∈ List.range cfg.channelCount := fun ch hch =>
    List.mem_range.mpr (served.live ch hch).1
  have sameStacks := served.sameStacks
  rw [show r = (r.1, r.2) from rfl, hr]
  constructor
  case sameStacks =>
    exact ⟨sameStacks.escaped, sameStacks.slots, sameStacks.issued, sameStacks.finishing,
      sameStacks.ripe,
      sameStacks.retired, sameStacks.lost⟩
  case wakes =>
    intro ch hch
    obtain ⟨before, untouched⟩ := hwakes ch hch
    exact (served.wakes ch before).resolve_left fun hit => untouched hit (all ch hit)
  case rearm =>
    intro ch hch
    obtain ⟨before, untouched⟩ := hrearm ch hch
    exact (served.rearm ch before).resolve_left fun hit => untouched hit (all ch hit)
  case loose => exact served.loose
  case stirring => exact served.stirring
  case closing => exact served.closing

/-! ### Calls of the client -/

/-- A point at which the client may call: nothing is owed but the completions that
follow the one being reported. -/
def Debts.Ready (d : Debts) : Prop :=
  d.escaped = true ∨ (d.Settled ∧ (d.retired ≠ 0 ∨ d.finishing = []))

/-- What is ready is settled. -/
theorem Debts.Ready.settled (h : d.Ready) : d.escaped = true ∨ d.Settled := h.imp_right And.left

/-- What a call of the client has changed. -/
structure Called (p q : HbmSystem × Debts) : Prop where
  sameStacks : SameStacks p.2 q.2
  settled : p.2.escaped = true ∨ q.2.Settled

theorem Called.refl (ready : p.2.Ready) : Called p p := ⟨.refl _, ready.settled⟩

theorem Called.trans {r : HbmSystem × Debts} (h : Called p q) (h' : Called q r) : Called p r :=
  ⟨h.sameStacks.trans h'.sameStacks, h.sameStacks.escaped ▸ h'.settled⟩

/-- After a call the system is ready for the next. -/
theorem Called.ready (h : Called p q) (ready : p.2.Ready) : q.2.Ready := by
  rcases ready with lost | ⟨-, busy⟩
  · exact .inl (h.sameStacks.escaped.trans lost)
  rcases h.settled with lost | settled
  · exact .inl (h.sameStacks.escaped.trans lost)
  · exact .inr ⟨settled, by rw [h.sameStacks.retired, h.sameStacks.finishing]; exact busy⟩

/-- Everybody who waits has been looked at. -/
theorem Pumped.settled {d' : Debts} (h : Pumped (s, d') q) (before : d'.escaped = true ∨
    d'.slots = [] ∧
    d'.issued = [] ∧ d'.ripe = none ∧ d'.wakes = [] ∧ d'.rearm = [])
    (loose : ∀ i ∈ d'.loose, i ∈ s.pendingAdmissions) : d'.escaped = true ∨ q.2.Settled := by
  rcases before with lost | ⟨slots, issued, ripe, wakes, rearm⟩
  · exact .inl lost
  rcases h.loose with lost | looked
  · exact .inl lost
  rcases h.stirring with lost | stirring
  · exact .inl lost
  rcases h.closing with lost | closing
  · exact .inl lost
  refine .inr ⟨?_, ?_, h.sameStacks.slots.trans slots, h.sameStacks.issued.trans issued, ?_,
    closing,
    h.sameStacks.ripe.trans ripe, stirring⟩
  · exact List.eq_nil_iff_forall_not_mem.mpr fun ch hch => by
      have := h.wakes ch hch
      rw [wakes] at this
      cases this
  · exact List.eq_nil_iff_forall_not_mem.mpr fun ch hch => by
      have := h.rearm ch hch
      rw [rearm] at this
      cases this
  · refine List.eq_nil_iff_forall_not_mem.mpr fun i hi => ?_
    obtain ⟨mem, gone⟩ := looked i hi
    exact gone (loose i mem)

/-- A submission obeys the rules, and refuses for want of room only where there is none. -/
theorem trySubmitNow_obeys (checked : cfg.Checked) (count : cfg.channelCount ≠ 0)
    (tx : HbmTransaction) (run : Run cfg p) (ripe : p.2.ripe = none) (ready : p.2.Ready) :
    Obeys cfg (trySubmitNow cfg tx)
      (fun result q => Called p q ∧ (result.status = .backpressure → Refused cfg q.1)) p := by
  have nothing : ∀ {status : SubmitStatus} {token : Nat} {message : String},
      status ≠ .backpressure →
      Obeys cfg (pure (⟨status, token, message⟩ : SubmitResult))
        (fun result q => Called p q ∧ (result.status = .backpressure → Refused cfg q.1)) p :=
    fun other => Follows.pure ⟨.refl ready, fun h => absurd h other⟩
  have waiting := run.waiting checked
  obtain ⟨s, d⟩ := p
  -- the refusals in the source's order, each of which leaves the state as it is
  unfold trySubmitNow
  refine Follows.get ?_
  by_cases sized : tx.id = 0 ∨ tx.sizeBytes = 0
  · rw [if_pos sized]
    exact nothing nofun
  rw [if_neg sized]
  by_cases late : tx.arrivalTime > s.now
  · rw [if_pos late]
    exact nothing nofun
  rw [if_neg late]
  by_cases used : (s.findParent tx.id).isSome
  · rw [if_pos used]
    exact nothing nofun
  rw [if_neg used]
  by_cases fits : tx.sizeBytes - 1 > maxSimTime - tx.address
  · rw [if_pos fits]
    exact nothing nofun
  rw [if_neg fits]
  refine Obeys.ofExcept (fun first next => ?_) fun e error => ?_
  · obtain ⟨group, -, -⟩ := HbmConfig.nextAccess_ok checked.burst checked.interleave next
    obtain ⟨byte, hmap⟩ := group.mapped
    have hchannel := HbmConfig.map_channel count hmap
    have reject : Refused cfg s →
        Obeys cfg (do
          modify fun s => s.countRejection first.address.flatChannel
          return (⟨.backpressure, 0, "admission capacity exceeded"⟩ : SubmitResult))
          (fun result q => Called (s, d) q ∧ (result.status = .backpressure → Refused cfg q.1))
          (s, d) := by
      intro refused
      refine Follows.bind (Q := fun _ q => q = (s.countRejection first.address.flatChannel, d))
        (Follows.modify (.reject hchannel) rfl) ?_
      rintro - q - rfl
      exact Follows.pure ⟨⟨.refl _, ready.settled⟩, fun _ => refused⟩
    by_cases full : s.parents.length ≥ cfg.controller.maxActiveTransactions
    · dsimp only
      rw [if_pos full]
      exact reject (.inl full)
    dsimp only
    rw [if_neg full]
    refine Obeys.query hchannel (g := fun t => t.ctl.canReserve _ _ _) ?_
    rw [HbmOp.beq_read, Bool.not_not, side_ctl]
    -- only the room for the first access is asked for, before anything is accepted
    cases free : (s.controllers first.address.flatChannel).canReserve
        (cfg.channelConfig first.address.flatChannel) (!tx.op.isWrite).toNat tx.op.isWrite.toNat with
    | false => exact reject (.inr ⟨_, hchannel, tx.op.isWrite, free⟩)
    | true =>
        have fresh : s.findParent tx.id = none := by simpa using used
        have accept : Move cfg (s, d) _ :=
          .accept (fun h => sized (.inr h)) (Nat.not_lt.mp late) fresh (Nat.not_lt.mp fits)
            (Nat.not_le.mp full)
        refine Follows.bind (Q := fun _ q => q =
          (s.acceptTransaction tx, { d with loose := tx.id :: d.loose }))
          (Follows.modify accept rfl) ?_
        rintro - q moves rfl
        refine Follows.bind (pumpAdmissions_obeys checked count (run.move accept) ripe
          (ready.settled.imp_right (·.stirring)) (ready.settled.imp_right (·.closing))) ?_
        rintro - r - pumped
        have sameStacks := pumped.sameStacks
        refine Follows.pure ⟨⟨⟨sameStacks.escaped, sameStacks.slots, sameStacks.issued,
          sameStacks.finishing,
          sameStacks.ripe, sameStacks.retired, sameStacks.lost⟩, ?_⟩, nofun⟩
        rcases ready.settled with lost | settled
        · exact .inl lost
        refine pumped.settled (.inr ⟨settled.slots, settled.issued, settled.ripe, settled.wakes,
          settled.rearm⟩) fun i hi => ?_
        have none : d.loose = [] := settled.loose
        obtain rfl : i = tx.id := by simpa [none] using hi
        exact List.mem_append_right _ (List.mem_singleton_self _)
  · refine ⟨ripe, ?_⟩
    have positive : 0 < tx.sizeBytes := Nat.pos_of_ne_zero fun h => sized (.inr h)
    obtain ⟨byte, hmap⟩ := HbmConfig.nextAccess_error checked.burst checked.interleave
      (Nat.not_lt.mp fits) positive error
    exact excusable_map hmap

/-- The client schedules an event of its own. -/
theorem scheduleClient_moves (s : HbmSystem) (d : Debts) (at_ tag : Nat) :
    Moves cfg (s, d) (s.scheduleClient at_ tag, d) := by
  unfold scheduleClient EventQueue.scheduleAt
  by_cases past : at_ < s.scheduler.now
  · rw [if_pos past]
  · rw [if_neg past]
    exact .single (.client (Nat.not_lt.mp past))

/-- The client's calls obey the rules, one after the other. -/
theorem runClient_obeys (checked : cfg.Checked) (count : cfg.channelCount ≠ 0)
    (calls : List ClientCall) {p : HbmSystem × Debts} (run : Run cfg p) (ripe : p.2.ripe = none)
    (ready : p.2.Ready) : Obeys cfg (runClient cfg calls) (fun _ q => Called p q) p := by
  induction calls generalizing p with
  | nil => exact Follows.pure (.refl ready)
  | cons call rest ih =>
      have later : ∀ q, Moves cfg p q → Called p q →
          Obeys cfg (runClient cfg rest) (fun _ r => Called p r) q := by
        intro q moves called
        refine (ih (run.moves moves) (called.sameStacks.ripe.trans ripe) (called.ready ready)).mono ?_
        exact fun _ r _ after => called.trans after
      unfold runClient
      cases call with
      | trySubmitNow tx =>
          refine Follows.bind (trySubmitNow_obeys checked count tx run ripe ready) ?_
          rintro result q moves ⟨called, refused⟩
          have after := called.ready ready
          have busy : q.2.retired ≠ 0 ∨ q.2.escaped = true ∨ q.2.finishing = [] := by
            rcases after with lost | ⟨-, retired | finishing⟩
            · exact .inr (.inl lost)
            · exact .inl retired
            · exact .inr (.inr finishing)
          refine Follows.bind (Q := fun _ r => r = (q.1.observe (.returned result
            q.1.systemEvents.length q.1.now), q.2))
            (Follows.modify (.return_ after.settled busy refused) rfl) ?_
          rintro - r moves' rfl
          exact later _ (moves.trans moves') ⟨called.sameStacks, called.settled⟩
      | setCompletionCallback present =>
          refine Follows.bind (Q := fun _ r => r =
            ({ p.1 with completionCallback := present }, p.2))
            (Follows.modify (.setCallbacks present p.1.capacityCallback) rfl) ?_
          rintro - r moves rfl
          exact later _ moves ⟨.refl _, ready.settled⟩
      | setCapacityCallback present =>
          refine Follows.bind (Q := fun _ r => r =
            ({ p.1 with capacityCallback := present }, p.2))
            (Follows.modify (.setCallbacks p.1.completionCallback present) rfl) ?_
          rintro - r moves rfl
          exact later _ moves ⟨.refl _, ready.settled⟩
      | scheduleAt at_ tag =>
          refine Follows.bind (Q := fun _ r => r = (p.1.scheduleClient at_.toNat tag, p.2))
            ⟨p.2, scheduleClient_moves p.1 p.2 at_.toNat tag, rfl⟩ ?_
          rintro - r moves rfl
          exact later _ moves ⟨.refl _, ready.settled⟩

/-- So does the client's reaction to a callback. -/
theorem invokeClient_obeys (checked : cfg.Checked) (count : cfg.channelCount ≠ 0)
    (run : Run cfg p) (ripe : p.2.ripe = none) (ready : p.2.Ready) :
    Obeys cfg (invokeClient cfg) (fun _ q => Called p q) p := by
  have script : Move cfg p ({ p.1 with script := p.1.script.tail }, p.2) := .setScript _
  unfold invokeClient
  refine Follows.bind (Q := fun _ q => q = ({ p.1 with script := p.1.script.tail }, p.2))
    ⟨p.2, .single script, rfl⟩ ?_
  rintro calls q - rfl
  exact (runClient_obeys checked count calls (run.move script) ripe ready).mono
    fun _ r _ called => ⟨called.sameStacks, called.settled⟩

/-- So does the notification of capacity. -/
theorem notifyCapacity_obeys (checked : cfg.Checked) (count : cfg.channelCount ≠ 0)
    (channel at_ : Nat) (run : Run cfg p) (ripe : p.2.ripe = none) (ready : p.2.Ready) :
    Obeys cfg (notifyCapacity cfg channel at_) (fun _ q => Called p q) p := by
  unfold notifyCapacity
  refine Follows.get ?_
  by_cases capacity : p.1.capacityCallback = true
  · rw [if_pos capacity]
    have note : Move cfg p (p.1.observe (.notified ⟨at_, channel,
        (p.1.controllers channel).availableReadSlots (cfg.channelConfig channel),
        (p.1.controllers channel).availableWriteSlots (cfg.channelConfig channel)⟩), p.2) :=
          .notify _
    refine Follows.bind (Q := fun _ q => q = (p.1.observe (.notified ⟨at_, channel,
        (p.1.controllers channel).availableReadSlots (cfg.channelConfig channel),
        (p.1.controllers channel).availableWriteSlots (cfg.channelConfig channel)⟩), p.2))
      (Follows.modify note rfl) ?_
    rintro - q - rfl
    exact (invokeClient_obeys checked count (run.move note) ripe ready).mono
      fun _ r _ called => ⟨called.sameStacks, called.settled⟩
  · rw [if_neg capacity]
    exact Follows.pure (.refl ready)

end

end HbmSim
