import HbmSim.System.Channel
import HbmSim.System.Seats

/-!
The waiting parents.

The parents that wait for slots are, in acceptance order, the ones that are not
fully admitted, and each of them is blocked: the queue its next access goes to is
full. A slot that becomes free therefore goes to the oldest parent that can use it.
-/

namespace HbmSim

open HbmSim.Lib HbmSystem

/-- The places of a queue that are taken or promised. -/
def HbmController.load (c : HbmController) (w : Bool) : Nat :=
  (c.queue w).length + c.reservedSlots w

/-- The queue a parent's next access goes to is full. -/
def HbmSystem.Blocked (cfg : HbmConfig) (s : HbmSystem) (p : ParentRequest) : Prop :=
  ∃ access, cfg.nextAccess p.transaction p.admittedBytes = .ok access ∧
    (s.controllers access.address.flatChannel).free (cfg.channelConfig access.address.flatChannel)
      access.op.isWrite = false

/-- The parent is not fully admitted, or just about to stop waiting. -/
def Debts.waits (d : Debts) (p : ParentRequest) : Bool :=
  decide (p.admittedBytes < p.transaction.sizeBytes) || decide (d.closing = some p.transaction.id)

/-- Who waits, and that everyone who is known to wait for a reason is blocked. -/
structure Waiting (cfg : HbmConfig) (s : HbmSystem) (d : Debts) : Prop where
  pending : s.pendingAdmissions = (s.parents.filter d.waits).map (·.transaction.id)
  blocked : ∀ p ∈ s.parents, p.admittedBytes < p.transaction.sizeBytes →
    p.transaction.id ∉ d.loose → s.Blocked cfg p

section

variable {cfg : HbmConfig} {s t : HbmSystem} {d d' : Debts}

/-! ### Fuller queues -/

/-- A fuller queue has no more room. -/
theorem HbmController.free_mono {config : HbmControllerConfig} {c c' : HbmController}
    (load : ∀ w, c.load w ≤ c'.load w) {w : Bool} (full : c.free config w = false) :
    c'.free config w = false := by
  have reads : c.readQueue.length + c.reservedReads ≤ c'.readQueue.length + c'.reservedReads :=
    load false
  have writes : c.writeQueue.length + c.reservedWrites ≤
    c'.writeQueue.length + c'.reservedWrites := load true
  rw [Bool.eq_false_iff] at full ⊢
  intro free
  apply full
  unfold HbmController.free canReserve hasCapacity at free ⊢
  simp only [Bool.and_eq_true, Bool.or_eq_true, beq_iff_eq, decide_eq_true_eq] at free ⊢
  omega

theorem HbmSystem.Blocked.mono {p : ParentRequest} (h : s.Blocked cfg p)
    (load : ∀ ch w, (s.controllers ch).load w ≤ (t.controllers ch).load w) : t.Blocked cfg p := by
  obtain ⟨access, next, full⟩ := h
  exact ⟨access, next, HbmController.free_mono (load _) full⟩

/-- Only the changed controller's load matters. -/
theorem load_update {channel : Nat} {c : HbmController}
    (controllers : ∀ ch, t.controllers ch = if ch = channel then c else s.controllers ch)
    (load : ∀ w, (s.controllers channel).load w ≤ c.load w) :
    ∀ ch w, (s.controllers ch).load w ≤ (t.controllers ch).load w := by
  intro ch w
  rw [controllers]
  split
  · subst ch
    exact load w
  · exact Nat.le_refl _

/-- The load is read off the queues and the reservations. -/
theorem load_of_marks {c c' : HbmController} (marks : SameMarks c c')
    (length : ∀ w, (c'.queue w).length = (c.queue w).length) (w : Bool) : c.load w ≤ c'.load w := by
  unfold HbmController.load
  exact Nat.le_of_eq (by rw [marks.reservedSlots, length])

/-- A pushed access gives back its reservation. -/
theorem push_load (c : HbmController) (a : HbmAccess) (w : Bool) :
    c.load w ≤ (c.push a).load w := by
  unfold HbmController.load
  rw [HbmController.push_queue, HbmController.push_slots]
  by_cases hw : w = a.op.isWrite
  · subst hw
    rw [if_pos rfl, if_pos rfl, List.length_append, List.length_singleton]
    omega
  · rw [if_neg hw, if_neg (Ne.symm hw)]
    exact Nat.le_refl _

theorem clearWakeup_load (c : HbmController) (at_ : Nat) (w : Bool) :
    (c.clearWakeup at_).load w = c.load w := by
  unfold HbmController.load
  rw [(clearWakeup_queue c at_ w).1, (clearWakeup_queue c at_ w).2]

theorem disarm_load (c : HbmController) (due : Nat) (w : Bool) :
    (c.disarm due).load w = c.load w := by
  unfold HbmController.load
  rw [(disarm_queue c due w).1, (disarm_queue c due w).2]

/-! ### Moves that concern no parent -/

/-- Fuller queues and the same parents. -/
theorem Waiting.fuller (h : Waiting cfg s d) (parents : t.parents = s.parents)
    (pending : t.pendingAdmissions = s.pendingAdmissions) (closing : d'.closing = d.closing)
    (loose : d'.loose = d.loose)
    (load : ∀ ch w, (s.controllers ch).load w ≤ (t.controllers ch).load w) : Waiting cfg t d' where
  pending := by
    have same : d'.waits = d.waits := by
      funext p
      unfold Debts.waits
      rw [closing]
    rw [pending, parents, same]
    exact h.pending
  blocked p hp unfinished waits := by
    rw [parents] at hp
    rw [loose] at waits
    exact (h.blocked p hp unfinished waits).mono load

/-- A change of one controller. -/
theorem Waiting.update (h : Waiting cfg s d) {channel : Nat} {c : HbmController}
    (controllers : ∀ ch, t.controllers ch = if ch = channel then c else s.controllers ch)
    (load : ∀ w, (s.controllers channel).load w ≤ c.load w)
    (parents : t.parents = s.parents) (pending : t.pendingAdmissions = s.pendingAdmissions)
    (closing : d'.closing = d.closing) (loose : d'.loose = d.loose) : Waiting cfg t d' :=
  h.fuller parents pending closing loose (load_update controllers load)

/-- No change of any controller. -/
theorem Waiting.frame (h : Waiting cfg s d) (controllers : t.controllers = s.controllers)
    (parents : t.parents = s.parents) (pending : t.pendingAdmissions = s.pendingAdmissions)
    (closing : d'.closing = d.closing) (loose : d'.loose = d.loose) : Waiting cfg t d' :=
  h.fuller parents pending closing loose fun ch w =>
    Nat.le_of_eq (by rw [controllers])

/-- An unfinished parent is pending. -/
theorem mem_pending (h : Waiting cfg s d) {p : ParentRequest} (hp : p ∈ s.parents)
    (unfinished : p.admittedBytes < p.transaction.sizeBytes) :
    p.transaction.id ∈ s.pendingAdmissions := by
  rw [h.pending]
  refine List.mem_map_of_mem (List.mem_filter.mpr ⟨hp, ?_⟩)
  simp [Debts.waits, unfinished]

/-- Slots become free, and everyone who waits may find one. -/
theorem Waiting.transfer (h : Waiting cfg s d) (parents : t.parents = s.parents)
    (pending : t.pendingAdmissions = s.pendingAdmissions) (closing : d'.closing = d.closing)
    (loose : d'.loose = s.pendingAdmissions) : Waiting cfg t d' where
  pending := by
    have same : d'.waits = d.waits := by
      funext p
      unfold Debts.waits
      rw [closing]
    rw [pending, parents, same]
    exact h.pending
  blocked p hp unfinished waits := by
    rw [parents] at hp
    rw [loose] at waits
    exact absurd (mem_pending h hp unfinished) waits

/-! ### Moves of a parent -/

/-- An accepted transaction is pending, and loose until it is served. -/
theorem Waiting.accept (h : Waiting cfg s d) (tx : HbmTransaction) (sized : tx.sizeBytes ≠ 0) :
    Waiting cfg (s.acceptTransaction tx) { d with loose := tx.id :: d.loose } where
  pending := by
    show s.pendingAdmissions ++ [tx.id] = _
    have new : Debts.waits { d with loose := tx.id :: d.loose }
        { transaction := tx, ticket := s.nextTicket } = true := by
      simp [Debts.waits, Nat.pos_of_ne_zero sized]
    have parents : (s.acceptTransaction tx).parents =
        s.parents ++ [{ transaction := tx, ticket := s.nextTicket }] := rfl
    rw [parents]
    rw [List.filter_append, List.map_append, List.filter_cons, if_pos new, List.filter_nil,
      h.pending]
    rfl
  blocked p hp unfinished waits := by
    rcases List.mem_append.mp hp with hp | hp
    · have old : p.transaction.id ∉ d.loose := fun loose => waits (List.mem_cons_of_mem _ loose)
      exact (h.blocked p hp unfinished old).mono fun _ _ => Nat.le_refl _
    · obtain rfl := List.mem_singleton.mp hp
      exact absurd List.mem_cons_self waits

/-- The ids of the parents that wait, when one parent changes in place. -/
theorem waits_map {parents : List ParentRequest} {f : ParentRequest → ParentRequest}
    {P P' : ParentRequest → Bool} (id : ∀ p ∈ parents, (f p).transaction.id = p.transaction.id)
    (same : ∀ p ∈ parents, P' (f p) = P p) :
    ((parents.map f).filter P').map (·.transaction.id) =
      (parents.filter P).map (·.transaction.id) := by
  induction parents with
  | nil => rfl
  | cons p rest ih =>
      have ih := ih (fun q hq => id q (List.mem_cons_of_mem p hq))
        fun q hq => same q (List.mem_cons_of_mem p hq)
      have hid := id p List.mem_cons_self
      have hsame := same p List.mem_cons_self
      rw [List.map_cons, List.filter_cons, List.filter_cons, hsame]
      split
      · rw [List.map_cons, List.map_cons, ih, hid]
      · exact ih

/-- A charge reserves a slot and frees none. -/
theorem charge_load {parent : ParentRequest} {access : HbmAccess} (ch : Nat) (w : Bool) :
    (s.controllers ch).load w ≤ ((s.charge parent access).controllers ch).load w := by
  refine load_update (charge_controllers s parent access) (fun w => ?_) ch w
  unfold HbmController.load
  rw [HbmController.reserved_slots]
  show _ ≤ ((s.controllers access.address.flatChannel).queue w).length + _
  exact Nat.add_le_add_left (Nat.le_add_right _ _) _

/-- A parent that is charged was not blocked. -/
theorem Waiting.charge (h : Waiting cfg s d) (accounted : Accounted s d) {parent : ParentRequest}
    {access : HbmAccess} (found : s.findParent parent.transaction.id = some parent)
    (unfinished : parent.admittedBytes < parent.transaction.sizeBytes)
    (fits : parent.admittedBytes + access.sizeBytes ≤ parent.transaction.sizeBytes)
    (next : cfg.nextAccess parent.transaction parent.admittedBytes = .ok access)
    (free : (s.controllers access.address.flatChannel).free
      (cfg.channelConfig access.address.flatChannel) access.op.isWrite = true)
    (closed : d.closing = none) :
    Waiting cfg (s.charge parent access)
      { d with
        slots := s.numbered access :: d.slots
        closing := if parent.admittedBytes + access.sizeBytes = parent.transaction.sizeBytes
          then some parent.transaction.id else none } := by
  obtain ⟨mem, -⟩ := findParent_some found
  constructor
  case pending =>
    refine h.pending.trans (waits_map (fun p hp => ?_) fun p hp => ?_).symm
    · split <;> rfl
    · by_cases hid : p.transaction.id = parent.transaction.id
      · obtain rfl := accounted.family.eq_of_id hp mem hid
        rw [if_pos rfl]
        unfold Debts.waits
        show (decide (p.admittedBytes + access.sizeBytes < p.transaction.sizeBytes) || _) = _
        by_cases full : p.admittedBytes + access.sizeBytes = p.transaction.sizeBytes
        · simp [full, unfinished]
        · have := Nat.lt_of_le_of_ne fits full
          simp [this, unfinished]
      · rw [if_neg hid]
        unfold Debts.waits
        rw [closed]
        split
        · simp [Ne.symm hid]
        · rfl
  case blocked =>
    intro p' hp' unfinished' waits
    obtain ⟨p, hp, rfl⟩ := List.mem_map.mp hp'
    by_cases hid : p.transaction.id = parent.transaction.id
    · obtain rfl := accounted.family.eq_of_id hp mem hid
      rw [if_pos rfl] at waits
      obtain ⟨access', next', full⟩ := h.blocked p hp unfinished waits
      obtain rfl : access = access' := Except.ok.inj (next.symm.trans next')
      rw [free] at full
      cases full
    · rw [if_neg hid] at waits unfinished' ⊢
      exact (h.blocked p hp unfinished' waits).mono charge_load

/-- A parent found blocked needs no more. -/
theorem Waiting.blocked_move (h : Waiting cfg s d) (accounted : Accounted s d)
    {parent : ParentRequest} {access : HbmAccess}
    (found : s.findParent parent.transaction.id = some parent)
    (next : cfg.nextAccess parent.transaction parent.admittedBytes = .ok access)
    (full : (s.controllers access.address.flatChannel).free
      (cfg.channelConfig access.address.flatChannel) access.op.isWrite = false) :
    Waiting cfg s { d with loose := d.loose.filter (· != parent.transaction.id) } where
  pending := h.pending
  blocked p hp unfinished waits := by
    by_cases hid : p.transaction.id = parent.transaction.id
    · obtain rfl := accounted.family.eq_of_id hp (findParent_some found).1 hid
      exact ⟨access, next, full⟩
    · refine h.blocked p hp unfinished fun loose => waits (List.mem_filter.mpr ⟨loose, ?_⟩)
      simpa using hid

/-- Erasing the id of a parent that stops waiting. -/
theorem filter_erase {parents : List ParentRequest} (ids : (parents.map (·.transaction.id)).Nodup)
    {parent : ParentRequest} (mem : parent ∈ parents) {P P' : ParentRequest → Bool}
    (stops : P' parent = false) (waited : P parent = true)
    (same : ∀ p ∈ parents, p.transaction.id ≠ parent.transaction.id → P' p = P p) :
    ((parents.filter P).map (·.transaction.id)).erase parent.transaction.id =
      (parents.filter P').map (·.transaction.id) := by
  induction parents with
  | nil => cases mem
  | cons q rest ih =>
      rw [List.map_cons, List.nodup_cons] at ids
      by_cases hq : q.transaction.id = parent.transaction.id
      · have rest_ne : ∀ p ∈ rest, p.transaction.id ≠ parent.transaction.id := by
          intro p hp hid
          exact ids.1 (hq ▸ hid ▸ List.mem_map_of_mem hp)
        obtain rfl : parent = q := by
          rcases List.mem_cons.mp mem with rfl | mem
          · rfl
          · exact absurd rfl (rest_ne parent mem)
        have tail : rest.filter P' = rest.filter P :=
          List.filter_congr fun p hp => same p (List.mem_cons_of_mem _ hp) (rest_ne p hp)
        rw [List.filter_cons, if_pos waited, List.filter_cons, if_neg (by simp [stops]),
          List.map_cons,
          List.erase_cons_head, tail]
      · have mem : parent ∈ rest := by
          rcases List.mem_cons.mp mem with rfl | mem
          · exact absurd rfl hq
          · exact mem
        have ih := ih ids.2 mem fun p hp => same p (List.mem_cons_of_mem q hp)
        rw [List.filter_cons, List.filter_cons, same q List.mem_cons_self hq]
        split
        · rw [List.map_cons, List.map_cons, List.erase_cons_tail (by simpa using hq), ih]
        · exact ih

/-- A parent admitted in full leaves the pending ones. -/
theorem Waiting.close (h : Waiting cfg s d) (accounted : Accounted s d) {parent : ParentRequest}
    (found : s.findParent parent.transaction.id = some parent)
    (finished : parent.admittedBytes = parent.transaction.sizeBytes)
    (closes : d.closing = some parent.transaction.id) :
    Waiting cfg { s with pendingAdmissions := s.pendingAdmissions.erase parent.transaction.id }
      { d with closing := none, loose := d.loose.filter (· != parent.transaction.id) } := by
  obtain ⟨mem, -⟩ := findParent_some found
  constructor
  case pending =>
    show s.pendingAdmissions.erase parent.transaction.id = _
    rw [h.pending]
    refine filter_erase accounted.family.ids mem ?_ ?_ fun p hp hid => ?_
    · simp [Debts.waits, finished]
    · simp [Debts.waits, closes]
    · simp [Debts.waits, closes, Ne.symm hid]
  case blocked =>
    intro p hp unfinished waits
    have hid : p.transaction.id ≠ parent.transaction.id := by
      intro hid
      obtain rfl := accounted.family.eq_of_id hp mem hid
      omega
    have loose : p.transaction.id ∉ d.loose := fun loose =>
      waits (List.mem_filter.mpr ⟨loose, by simpa using hid⟩)
    exact (h.blocked p hp unfinished loose).mono fun _ _ => Nat.le_refl _

/-- A parent that completes waits no more. -/
theorem Waiting.retire (h : Waiting cfg s d) (accounted : Accounted s d) {parent : ParentRequest}
    (found : s.findParent parent.transaction.id = some parent)
    (admitted : parent.admittedBytes = parent.transaction.sizeBytes) (closed : d.closing = none)
    {ripe : Option Nat} {retired : Nat} :
    Waiting cfg (s.retireParent cfg parent) { d with ripe := ripe, retired := retired } := by
  obtain ⟨mem, -⟩ := findParent_some found
  have parents : (s.retireParent cfg parent).parents =
      s.parents.filter fun p => p.transaction.id != parent.transaction.id := rfl
  constructor
  case pending =>
    show s.pendingAdmissions = _
    rw [h.pending, parents, List.filter_filter]
    congr 1
    refine List.filter_congr fun p hp => ?_
    show d.waits p = (d.waits p && (p.transaction.id != parent.transaction.id))
    by_cases hid : p.transaction.id = parent.transaction.id
    · obtain rfl := accounted.family.eq_of_id hp mem hid
      simp [Debts.waits, admitted, closed]
    · simp [hid]
  case blocked =>
    intro p hp unfinished waits
    rw [parents] at hp
    have hp := (List.mem_filter.mp hp).1
    exact (h.blocked p hp unfinished waits).mono fun _ _ => Nat.le_refl _

/-- A credited access admits nothing. -/
theorem Waiting.credit (h : Waiting cfg s d) (accounted : Accounted s d) {channel : Nat}
    {access : LogicalCompletion} {parent : ParentRequest}
    (found : s.findParent access.parentId = some parent) (closing : d'.closing = d.closing)
    (loose : d'.loose = d.loose) : Waiting cfg (s.credit cfg channel access parent) d' := by
  obtain ⟨mem, id⟩ := findParent_some found
  have kept : ∀ p ∈ s.parents, p.transaction.id = access.parentId →
      (creditAccess parent access channel s.now).transaction = p.transaction ∧
        (creditAccess parent access channel s.now).admittedBytes = p.admittedBytes := by
    intro p hp hid
    obtain rfl := accounted.family.eq_of_id hp mem (hid.trans id.symm)
    unfold creditAccess
    dsimp only
    split <;> exact ⟨rfl, rfl⟩
  have load : ∀ ch w, (s.controllers ch).load w ≤
      ((s.credit cfg channel access parent).controllers ch).load w :=
    load_update (credit_controllers cfg s channel access parent) fun _ => Nat.le_refl _
  constructor
  case pending =>
    refine h.pending.trans (waits_map (fun p hp => ?_) fun p hp => ?_).symm
    · split
      · rename_i hid
        rw [(kept p hp hid).1]
      · rfl
    · split
      · rename_i hid
        unfold Debts.waits
        rw [(kept p hp hid).1, (kept p hp hid).2, closing]
      · unfold Debts.waits
        rw [closing]
  case blocked =>
    intro p' hp' unfinished waits
    obtain ⟨p, hp, rfl⟩ := List.mem_map.mp hp'
    rw [loose] at waits
    by_cases hid : p.transaction.id = access.parentId
    · rw [if_pos hid] at waits unfinished ⊢
      rw [(kept p hp hid).1] at waits unfinished
      rw [(kept p hp hid).2] at unfinished
      obtain ⟨next, hnext, full⟩ := h.blocked p hp unfinished waits
      refine HbmSystem.Blocked.mono (s := s) ⟨next, ?_, full⟩ load
      rw [(kept p hp hid).1, (kept p hp hid).2]
      exact hnext
    · rw [if_neg hid] at waits unfinished ⊢
      exact (h.blocked p hp unfinished waits).mono load

/-! ### The invariant -/

/-- Every move keeps the waiting parents accounted for. -/
theorem Waiting.move (checked : cfg.Checked) {p q : HbmSystem × Debts} (move : Move cfg p q)
    (accounted : Accounted p.1 p.2) (h : p.2.escaped = true ∨ Waiting cfg p.1 p.2) :
    q.2.escaped = true ∨ Waiting cfg q.1 q.2 := by
  rcases h with lost | h
  · refine .inl ?_
    cases move <;> exact lost
  cases move with
  | @control s d channel t _ step =>
      exact .inr (h.update (update_controllers s channel t) (load_of_marks step.marks step.queue_length)
        rfl rfl rfl rfl)
  | @stir s d channel t _ step =>
      exact .inr (h.update (update_controllers s channel t) (load_of_marks step.marks step.queue_length)
        rfl rfl rfl rfl)
  | transfer => exact .inr (h.transfer rfl rfl rfl rfl)
  | @wake s d channel at_ =>
      exact .inr (h.update (markWake_controllers s channel at_) (fun _ =>
        Nat.le_refl _) rfl rfl rfl rfl)
  | @arm s d channel due =>
      exact .inr (h.update (markRefresh_controllers s channel due) (fun _ =>
        Nat.le_refl _) rfl rfl rfl
        rfl)
  | @misarm s d channel due =>
      have same := modifyController_controllers s channel fun c =>
        { c with refreshDueAt := some due }
      exact .inr (h.update same (fun _ => Nat.le_refl _) rfl rfl rfl rfl)
  | accept sized => exact .inr (h.accept _ sized)
  | charge _ found _ _ unfinished next free closed =>
      rcases closed with lost | closed
      · exact .inl lost
      obtain ⟨-, -, le⟩ := HbmConfig.nextAccess_ok checked.burst checked.interleave next
      exact .inr (h.charge accounted found unfinished (by omega) next free closed)
  | @push s d access =>
      exact .inr (h.update (push_controllers cfg s access) (push_load _ _) rfl rfl rfl rfl)
  | blocked found _ next full => exact .inr (h.blocked_move accounted found next full)
  | close found finished closes =>
      rcases closes with lost | closes
      · exact .inl lost
      exact .inr (h.close accounted found finished closes)
  | credit _ _ found => exact .inr (h.credit accounted found rfl rfl)
  | retire found _ _ admitted _ closed =>
      rcases closed with lost | closed
      · exact .inl lost
      exact .inr (h.retire accounted found admitted closed)
  | _ => exact .inr (h.frame rfl rfl rfl rfl rfl)

/-- So does every turn. -/
theorem Waiting.turn {p q : HbmSystem × Debts} (turn : Turn cfg p q)
    (h : p.2.escaped = true ∨ Waiting cfg p.1 p.2) : q.2.escaped = true ∨ Waiting cfg q.1 q.2 := by
  rcases h with lost | h
  · refine .inl ?_
    cases turn <;> first | exact lost | rfl
  cases turn with
  | @wake s d event rest channel =>
      exact .inr (h.update (modifyController_controllers (s.pop event rest) channel _)
        (fun w => Nat.le_of_eq (clearWakeup_load _ _ w).symm) rfl rfl rfl rfl)
  | @refreshDue s d event rest channel =>
      exact .inr (h.update (modifyController_controllers (s.pop event rest) channel _)
        (fun w => Nat.le_of_eq (disarm_load _ _ w).symm) rfl rfl rfl rfl)
  | escape => exact .inl rfl
  | lose => exact .inl rfl
  | _ => exact .inr (h.frame rfl rfl rfl rfl rfl)

/-- Unless an exception has escaped, whoever waits is blocked. -/
theorem HbmSystem.Run.waiting (checked : cfg.Checked) {p : HbmSystem × Debts} (run : Run cfg p) :
    p.2.escaped = true ∨ Waiting cfg p.1 p.2 := by
  induction run with
  | create => exact .inr ⟨rfl, fun p hp => by cases hp⟩
  | move run move ih => exact Waiting.move checked move (run.accounted checked) ih
  | turn _ turn ih => exact Waiting.turn turn ih

end

end HbmSim
