import HbmSim.Controller.Arrival
import HbmSim.System.Seats
import HbmSim.System.Scheduling

/-!
When admissions throw.

`pump_admissions` maps the pieces of the waiting transactions and admits those that find a slot.
Which pieces get their turn, and which of them cannot be admitted, is read off the state it
starts from: the transactions, the free slots of the controllers and their refreshes.
-/

namespace HbmSim

open HbmSim.Lib HbmSystem HbmController

/-! ### The pieces that get their turn -/

/-- The bytes of the pieces that belong to a transaction. -/
def bytesTaken (taken : List HbmAccess) (id : Nat) : Nat :=
  ((taken.filter fun a => a.parentId == id).map (·.sizeBytes)).sum

/-- The slots that the pieces take in a queue. -/
def slotsTaken (taken : List HbmAccess) (channel : Nat) (write : Bool) : Nat :=
  taken.countP fun a => a.address.flatChannel == channel && a.op.isWrite == write

/-- The next piece of a waiting transaction after the pieces `taken`, if it has one. -/
def HbmSystem.nextPiece (cfg : HbmConfig) (s : HbmSystem) (taken : List HbmAccess) (id : Nat) :
    Except HbmError (Option HbmAccess) :=
  match s.findParent id with
  | none => .error (.outOfRange "unordered_map::at")
  | some parent =>
      if parent.admittedBytes + bytesTaken taken id < parent.transaction.sizeBytes then
        some <$> cfg.nextAccess parent.transaction (parent.admittedBytes + bytesTaken taken id)
      else .ok none

/-- A channel has slots for all the pieces that go to it. -/
def HbmSystem.HasSlots (cfg : HbmConfig) (s : HbmSystem) (pieces : List HbmAccess) (channel : Nat) :
    Prop :=
  (s.controllers channel).canReserve (cfg.channelConfig channel) (slotsTaken pieces channel false)
    (slotsTaken pieces channel true) = true

/-- The refreshes that are overdue at an arrival cannot be made up for. -/
def HbmSystem.RefreshFails (cfg : HbmConfig) (s : HbmSystem) (e : HbmError) (channel : Nat) :
    Prop :=
  ∃ t, prepareRefreshForArrival (cfg.channelConfig channel) cfg.mapper s.now (s.side channel) =
    .error e t

/-- The transactions `line` are admitted in order, after the pieces `taken`, until one of their
pieces cannot be: it has no address, or it finds a slot on a channel whose refreshes fail. -/
inductive HbmSystem.AdmissionFails (cfg : HbmConfig) (s : HbmSystem) (e : HbmError) :
    List HbmAccess → List Nat → Prop
  | unmapped {taken id line} (next : s.nextPiece cfg taken id = .error e) :
      AdmissionFails cfg s e taken (id :: line)
  | refresh {taken id line a} (next : s.nextPiece cfg taken id = .ok (some a))
      (slots : s.HasSlots cfg (taken ++ [a]) a.address.flatChannel)
      (fails : s.RefreshFails cfg e a.address.flatChannel) :
      AdmissionFails cfg s e taken (id :: line)
  | take {taken id line a} (next : s.nextPiece cfg taken id = .ok (some a))
      (slots : s.HasSlots cfg (taken ++ [a]) a.address.flatChannel)
      (later : AdmissionFails cfg s e (taken ++ [a]) (id :: line)) :
      AdmissionFails cfg s e taken (id :: line)
  | block {taken id line a} (next : s.nextPiece cfg taken id = .ok (some a))
      (full : ¬ s.HasSlots cfg (taken ++ [a]) a.address.flatChannel)
      (later : AdmissionFails cfg s e taken line) : AdmissionFails cfg s e taken (id :: line)
  | finish {taken id line} (next : s.nextPiece cfg taken id = .ok none)
      (later : AdmissionFails cfg s e taken line) : AdmissionFails cfg s e taken (id :: line)

section

variable {cfg : HbmConfig} {s u : HbmSystem} {taken : List HbmAccess} {a : HbmAccess} {id : Nat}
  {line : List Nat} {e : HbmError}

theorem bytesTaken_append : bytesTaken (taken ++ [a]) id =
    bytesTaken taken id + if a.parentId = id then a.sizeBytes else 0 := by
  unfold bytesTaken
  rw [List.filter_append, List.map_append, List.sum_append]
  by_cases own : a.parentId = id <;> simp [own]

theorem slotsTaken_append {channel : Nat} {w : Bool} : slotsTaken (taken ++ [a]) channel w =
    slotsTaken taken channel w +
      if a.address.flatChannel = channel ∧ a.op.isWrite = w then 1 else 0 := by
  unfold slotsTaken
  rw [List.countP_append, List.countP_singleton]
  simp

/-! ### Inversion -/

namespace HbmSystem.AdmissionFails

/-- With no parent waiting nothing fails. -/
theorem not_nil : ¬ AdmissionFails cfg s e taken [] := by
  intro fails
  cases fails

/-- What follows a piece that finds a slot. -/
theorem take_iff (next : s.nextPiece cfg taken id = .ok (some a))
    (slots : s.HasSlots cfg (taken ++ [a]) a.address.flatChannel)
    (sound : ¬ s.RefreshFails cfg e a.address.flatChannel) :
    AdmissionFails cfg s e taken (id :: line) ↔
      AdmissionFails cfg s e (taken ++ [a]) (id :: line) := by
  refine ⟨fun fails => ?_, .take next slots⟩
  cases fails with
  | unmapped next' => cases next.symm.trans next'
  | refresh next' _ fails =>
      obtain rfl := Option.some.inj (Except.ok.inj (next.symm.trans next'))
      exact absurd fails sound
  | take next' _ later =>
      obtain rfl := Option.some.inj (Except.ok.inj (next.symm.trans next'))
      exact later
  | block next' full =>
      obtain rfl := Option.some.inj (Except.ok.inj (next.symm.trans next'))
      exact absurd slots full
  | finish next' => cases next.symm.trans next'

/-- A parent that is blocked hands over to the next. -/
theorem block_iff (next : s.nextPiece cfg taken id = .ok (some a))
    (full : ¬ s.HasSlots cfg (taken ++ [a]) a.address.flatChannel) :
    AdmissionFails cfg s e taken (id :: line) ↔ AdmissionFails cfg s e taken line := by
  refine ⟨fun fails => ?_, .block next full⟩
  cases fails with
  | unmapped next' => cases next.symm.trans next'
  | refresh next' slots | take next' slots =>
      obtain rfl := Option.some.inj (Except.ok.inj (next.symm.trans next'))
      exact absurd slots full
  | block _ _ later => exact later
  | finish next' => cases next.symm.trans next'

/-- So does a parent that is admitted in full. -/
theorem finish_iff (next : s.nextPiece cfg taken id = .ok none) :
    AdmissionFails cfg s e taken (id :: line) ↔ AdmissionFails cfg s e taken line := by
  refine ⟨fun fails => ?_, .finish next⟩
  cases fails with
  | unmapped next' => cases next.symm.trans next'
  | refresh next' | take next' | block next' => cases next.symm.trans next'
  | finish _ later => exact later

end HbmSystem.AdmissionFails

/-! ### Admission under way -/

/-- What is left of the state that admissions have started from, when they have taken some
pieces. -/
structure Admitting (cfg : HbmConfig) (s : HbmSystem) (taken : List HbmAccess) (u : HbmSystem) :
    Prop where
  now : u.now = s.now
  parents : ∀ id, (u.findParent id).map (fun p => (p.transaction, p.admittedBytes)) =
    (s.findParent id).map fun p => (p.transaction, p.admittedBytes + bytesTaken taken id)
  slots : ∀ channel w, ((u.controllers channel).queue w).length +
    (u.controllers channel).reservedSlots w = ((s.controllers channel).queue w).length +
      (s.controllers channel).reservedSlots w + slotsTaken taken channel w
  untouched : ∀ channel, (∀ a ∈ taken, a.address.flatChannel ≠ channel) →
    u.controllers channel = s.controllers channel
  prepared : ∀ a ∈ taken, (∀ e, ¬ s.RefreshFails cfg e a.address.flatChannel) ∧
    Prepared (cfg.channelConfig a.address.flatChannel) s.now (u.controllers a.address.flatChannel)

/-- Nothing taken yet. -/
theorem Admitting.start (cfg : HbmConfig) (s : HbmSystem) : Admitting cfg s [] s where
  now := rfl
  parents _ := rfl
  slots _ _ := rfl
  untouched _ _ := rfl
  prepared a ha := by cases ha

/-- The free slots of a controller are those that the pieces have left. -/
theorem Admitting.free_iff (admitting : Admitting cfg s taken u) (a : HbmAccess) :
    (u.controllers a.address.flatChannel).free (cfg.channelConfig a.address.flatChannel)
      a.op.isWrite = true ↔ s.HasSlots cfg (taken ++ [a]) a.address.flatChannel := by
  have reads := admitting.slots a.address.flatChannel false
  have writes := admitting.slots a.address.flatChannel true
  unfold HbmController.queue HbmController.reservedSlots at reads writes
  simp only [Bool.false_eq_true, if_false, if_true] at reads writes
  unfold HbmSystem.HasSlots HbmController.free HbmController.canReserve hasCapacity
  rw [reads, writes, slotsTaken_append, slotsTaken_append]
  cases a.op.isWrite
  all_goals
    simp only [Bool.not_false, Bool.not_true, Bool.toNat_true, Bool.toNat_false, Bool.and_eq_true,
      Bool.or_eq_true, beq_iff_eq, decide_eq_true_eq, and_true, and_false, if_true, if_false,
      Bool.false_eq_true, reduceCtorEq]
    omega

/-- The next piece of a parent is found with the parent. -/
theorem Admitting.nextPiece (admitting : Admitting cfg s taken u) {parent : ParentRequest}
    (found : u.findParent id = some parent) : s.nextPiece cfg taken id =
      if parent.admittedBytes < parent.transaction.sizeBytes then
        some <$> cfg.nextAccess parent.transaction parent.admittedBytes
      else .ok none := by
  have same := admitting.parents id
  rw [found, Option.map_some] at same
  obtain ⟨before, at_, progress⟩ := Option.map_eq_some_iff.mp same.symm
  obtain ⟨transaction, bytes⟩ := Prod.mk.inj progress
  unfold HbmSystem.nextPiece
  rw [at_]
  dsimp only at transaction bytes ⊢
  rw [transaction, bytes]

/-- Pushing an access turns a reserved slot into a queued access. -/
theorem push_seats {c : HbmController} {a : HbmAccess} (slot : c.reservedSlots a.op.isWrite ≠ 0)
    (w : Bool) : ((c.push a).queue w).length + (c.push a).reservedSlots w =
      (c.queue w).length + c.reservedSlots w := by
  rw [push_queue, push_slots]
  by_cases own : a.op.isWrite = w
  · rw [if_pos own.symm, if_pos own, List.length_append, List.length_singleton]
    rw [own] at slot
    omega
  · rw [if_neg (Ne.symm own), if_neg own]
    rfl

/-- The parents are found by their ids, which stay. -/
theorem findParent_modifyParent {f : ParentRequest → ParentRequest}
    (keeps : ∀ p, (f p).transaction = p.transaction) (s : HbmSystem) (id id' : Nat) :
    (s.modifyParent id f).findParent id' =
      (s.findParent id').map fun p => if p.transaction.id = id then f p else p := by
  have same : ((fun p : ParentRequest => p.transaction.id == id') ∘
      fun p => if p.transaction.id = id then f p else p) = fun p => p.transaction.id == id' := by
    funext p
    show ((if p.transaction.id = id then f p else p).transaction.id == id') = _
    split
    · rw [keeps]
    · rfl
  unfold HbmSystem.findParent HbmSystem.modifyParent
  dsimp only
  rw [List.find?_map, same]

/-- Before a piece is pushed its channel is prepared for an arrival. -/
theorem Admitting.prepares (admitting : Admitting cfg s taken u) {channel : Nat}
    (never : cfg.controller.refreshInterval = 0 → (s.controllers channel).nextRefreshDue = none)
    {v : ControllerState} (requeued : v.ctl = (u.controllers channel).withQueues v.ctl) :
    Exits (prepareRefreshForArrival (cfg.channelConfig channel) cfg.mapper s.now)
      (fun _ t => (∀ e, ¬ s.RefreshFails cfg e channel) ∧ t.ctl = t.ctl.withQueues v.ctl ∧
        Prepared (cfg.channelConfig channel) s.now t.ctl)
      (fun e _ => s.RefreshFails cfg e channel) v := by
  by_cases again : ∃ a ∈ taken, a.address.flatChannel = channel
  · obtain ⟨a, ha, rfl⟩ := again
    obtain ⟨sound, prepared⟩ := admitting.prepared a ha
    have prepared' : Prepared (cfg.channelConfig a.address.flatChannel) s.now v.ctl := by
      rw [requeued]
      exact ⟨prepared.found, prepared.later⟩
    unfold Exits
    rw [prepared'.still]
    exact ⟨sound, rfl, prepared'⟩
  · have first : u.controllers channel = s.controllers channel :=
      admitting.untouched channel fun a ha here => again ⟨a, ha, here⟩
    rw [first] at requeued
    have both : Alike (Requeued v.ctl)
        (prepareRefreshForArrival (cfg.channelConfig channel) cfg.mapper s.now (s.side channel))
        (prepareRefreshForArrival (cfg.channelConfig channel) cfg.mapper s.now v) :=
      prepareRefreshForArrival_unqueued s.now (s.side channel) v requeued
    have after : Exits (prepareRefreshForArrival (cfg.channelConfig channel) cfg.mapper s.now)
        (fun _ t => Prepared (cfg.channelConfig channel) s.now t.ctl) (fun _ _ => True)
        (s.side channel) :=
      prepareRefreshForArrival_prepared s.now never
    unfold Exits at after ⊢
    unfold HbmSystem.RefreshFails
    generalize prepareRefreshForArrival (cfg.channelConfig channel) cfg.mapper s.now v = right
      at both ⊢
    generalize prepareRefreshForArrival (cfg.channelConfig channel) cfg.mapper s.now
      (s.side channel) = left at both after ⊢
    cases both with
    | @ok _ w t states =>
        have next : t.ctl.nextRefreshDue = w.ctl.nextRefreshDue := by rw [states]; rfl
        refine ⟨fun _ ⟨_, fails⟩ => (by cases fails), ?_, ?_⟩
        · rw [states]
          rfl
        · exact ⟨next ▸ after.found, next ▸ after.later⟩
    | error => exact ⟨_, rfl⟩

/-- The system after a piece is charged and pushed into its slot, on a controller as its refreshes
leave it. -/
theorem Admitting.push (admitting : Admitting cfg s taken u) {parent : ParentRequest}
    (of : a.parentId = parent.transaction.id) {t : ControllerState}
    (sound : ∀ e, ¬ s.RefreshFails cfg e a.address.flatChannel)
    (requeued : t.ctl = t.ctl.withQueues
      (reserved (u.side a.address.flatChannel) a.op.isWrite).ctl)
    (slot : t.ctl.reservedSlots a.op.isWrite ≠ 0)
    (prepared : Prepared (cfg.channelConfig a.address.flatChannel) s.now t.ctl) :
    Admitting cfg s (taken ++ [a]) ((u.charge parent a).update a.address.flatChannel
      (pushed (cfg.channelConfig a.address.flatChannel) t
        { u.numbered a with enqueuedAt := a.arrivalTime })) where
  now := admitting.now
  parents id := by
    -- the parent has the bytes of this access more, the others what they had
    have charged := findParent_modifyParent (f := fun p => { p with
        admittedBytes := p.admittedBytes + a.sizeBytes
        remainingAccesses := p.remainingAccesses + 1 }) (fun _ => rfl) u parent.transaction.id id
    have before := admitting.parents id
    rw [bytesTaken_append, of]
    refine (congrArg (Option.map fun p => (p.transaction, p.admittedBytes)) charged).trans ?_
    rw [Option.map_map]
    cases found : u.findParent id with
    | none =>
        rw [found] at before
        rw [Option.map_eq_none_iff.mp before.symm]
        rfl
    | some p =>
        rw [found] at before
        obtain ⟨q, at_, progress⟩ := Option.map_eq_some_iff.mp before.symm
        obtain ⟨transaction, bytes⟩ := Prod.mk.inj progress
        have more : q.admittedBytes + (bytesTaken taken id + a.sizeBytes) =
            p.admittedBytes + a.sizeBytes := by
          rw [← Nat.add_assoc]
          exact congrArg (· + a.sizeBytes) bytes
        rw [at_, Option.map_some, Option.map_some, Function.comp_apply, (findParent_some found).2]
        by_cases own : parent.transaction.id = id
        · rw [if_pos own.symm, if_pos own, transaction, more]
        · rw [if_neg (Ne.symm own), if_neg own, transaction, Nat.add_zero]
          exact congrArg (fun b => some (p.transaction, b)) bytes.symm
  slots channel w := by
    rw [update_controllers, slotsTaken_append]
    by_cases here : channel = a.address.flatChannel
    · subst here
      have before := admitting.slots a.address.flatChannel w
      have queue : t.ctl.queue w = (u.controllers a.address.flatChannel).queue w := by
        rw [requeued]
        cases w <;> rfl
      have reserved : t.ctl.reservedSlots w =
          (u.controllers a.address.flatChannel).reservedSlots w +
            if a.op.isWrite = w then 1 else 0 := by
        rw [requeued]
        exact reserved_slots a.op.isWrite w
      have seated := push_seats (c := t.ctl) (a := { u.numbered a with enqueuedAt := a.arrivalTime })
        slot w
      rw [if_pos rfl]
      refine seated.trans ?_
      rw [queue, reserved, ← Nat.add_assoc, before, Nat.add_assoc]
      simp only [true_and]
    · rw [if_neg here, charge_controllers, if_neg here,
        if_neg fun both => here both.1.symm, admitting.slots channel w]
      rfl
  untouched channel apart := by
    have other : channel ≠ a.address.flatChannel := fun same =>
      apart a (List.mem_append_right _ List.mem_cons_self) same.symm
    rw [update_controllers, if_neg other, charge_controllers, if_neg other]
    exact admitting.untouched channel fun b hb => apart b (List.mem_append_left _ hb)
  prepared b hb := by
    by_cases here : b.address.flatChannel = a.address.flatChannel
    · rw [here, update_controllers, if_pos rfl]
      exact ⟨sound, prepared.found, prepared.later⟩
    · rw [update_controllers, if_neg here, charge_controllers, if_neg here]
      rcases List.mem_append.mp hb with old | new
      · exact admitting.prepared b old
      · exact absurd (congrArg (·.address.flatChannel) (List.mem_singleton.mp new)) here

/-- Admitting an access takes it, or fails in its channel's refreshes. -/
theorem admitAccess_exits (admitting : Admitting cfg s taken u) {parent : ParentRequest}
    (hchannel : a.address.flatChannel < cfg.channelCount)
    (never : cfg.controller.refreshInterval = 0 →
      (s.controllers a.address.flatChannel).nextRefreshDue = none)
    (of : a.parentId = parent.transaction.id)
    (slots : s.HasSlots cfg (taken ++ [a]) a.address.flatChannel) :
    Exits (admitAccess cfg parent a)
      (fun _ t => (∀ e, ¬ s.RefreshFails cfg e a.address.flatChannel) ∧
        Admitting cfg s (taken ++ [a]) t)
      (fun e _ => s.RefreshFails cfg e a.address.flatChannel) u := by
  have free := (admitting.free_iff a).mpr slots
  unfold admitAccess
  simp only [exits_bind, exits_get, exits_set, HbmOp.beq_read, Bool.not_not]
  rw [onController_exits hchannel]
  refine (reserve_exits free).mono (fun _ v h => ?_) (fun _ _ h => h.elim)
  subst h
  show Exits (onController cfg a.address.flatChannel (admitReserved
    (cfg.channelConfig a.address.flatChannel) cfg.mapper (u.numbered a) u.now)) _ _ (u.charge parent a)
  rw [onController_exits hchannel, admitting.now]
  unfold admitReserved
  rw [exits_bind]
  have charged : ((u.charge parent a).side a.address.flatChannel).ctl =
      (reserved (u.side a.address.flatChannel) a.op.isWrite).ctl := by
    rw [side_ctl, charge_controllers, if_pos rfl]
  refine (admitting.prepares never ?_).mono (fun _ t h => ?_) fun _ _ h => h
  · rw [charged]
    rfl
  obtain ⟨sound, requeued, prepared⟩ := h
  rw [charged] at requeued
  have slot : t.ctl.reservedSlots a.op.isWrite ≠ 0 := by
    rw [requeued]
    show (reserved (u.side a.address.flatChannel) a.op.isWrite).ctl.reservedSlots _ ≠ 0
    rw [reserved_slots, if_pos rfl]
    exact Nat.succ_ne_zero _
  refine (pushReserved_exits (a := { u.numbered a with enqueuedAt := a.arrivalTime }) slot).mono
    (fun _ w h => ?_) fun _ _ h => h.elim
  subst h
  exact ⟨sound, admitting.push of sound requeued slot prepared⟩

/-! ### The loops -/

/-- The touched channels have taken a piece. -/
def Reached (taken : List HbmAccess) (touched : List Nat) : Prop :=
  ∀ channel ∈ touched, ∃ a ∈ taken, a.address.flatChannel = channel

/-- A parent that is not found ends the admissions. -/
theorem Admitting.lost (admitting : Admitting cfg s taken u) (none : u.findParent id = none) :
    s.AdmissionFails cfg (.outOfRange "unordered_map::at") taken (id :: line) := by
  have same := admitting.parents id
  rw [none, Option.map_none] at same
  refine .unmapped ?_
  unfold HbmSystem.nextPiece
  rw [Option.map_eq_none_iff.mp same.symm]

/-- After a complete parent the rest of the line is served. -/
theorem Admitting.finished (admitting : Admitting cfg s taken u) {parent : ParentRequest}
    (found : u.findParent id = some parent)
    (whole : ¬ parent.admittedBytes < parent.transaction.sizeBytes) :
    s.AdmissionFails cfg e taken (id :: line) ↔ s.AdmissionFails cfg e taken line :=
  AdmissionFails.finish_iff ((admitting.nextPiece found).trans (if_neg whole))

/-- A piece that is taken brings its parent on. -/
theorem Admitting.progress {t : HbmSystem} (admitting : Admitting cfg s taken u)
    (after : Admitting cfg s (taken ++ [a]) t) {parent parent' : ParentRequest}
    (own : a.parentId = id) (found : u.findParent id = some parent)
    (found' : t.findParent id = some parent') :
    parent'.transaction = parent.transaction ∧
      parent'.admittedBytes = parent.admittedBytes + a.sizeBytes := by
  have before := admitting.parents id
  have now := after.parents id
  rw [found, Option.map_some] at before
  rw [found', Option.map_some] at now
  obtain ⟨q, at_, progress⟩ := Option.map_eq_some_iff.mp before.symm
  obtain ⟨transaction, bytes⟩ := Prod.mk.inj progress
  rw [at_, Option.map_some, bytesTaken_append, if_pos own, ← Nat.add_assoc] at now
  obtain ⟨transaction', bytes'⟩ := Prod.mk.inj (Option.some.inj now)
  exact ⟨transaction'.trans transaction, bytes'.trans (congrArg (· + a.sizeBytes) bytes)⟩

/-- The pieces of one transaction. -/
theorem admitParent_exits (checked : cfg.Checked) (count : cfg.channelCount ≠ 0)
    (never : cfg.controller.refreshInterval = 0 → ∀ channel,
      (s.controllers channel).nextRefreshDue = none)
    {rounds : Nat} {touched : List Nat} (admitting : Admitting cfg s taken u)
    (reached : Reached taken touched) (enough : ∀ parent, u.findParent id = some parent →
      parent.transaction.sizeBytes - parent.admittedBytes ≤ rounds) (line : List Nat) :
    Exits (admitParent cfg id rounds touched)
      (fun touched t => ∃ taken', Admitting cfg s taken' t ∧ Reached taken' touched ∧
        ∀ e, s.AdmissionFails cfg e taken (id :: line) ↔ s.AdmissionFails cfg e taken' line)
      (fun e _ => s.AdmissionFails cfg e taken (id :: line)) u := by
  induction rounds generalizing taken touched u with
  | zero =>
      unfold admitParent
      simp only [exits_bind, exits_get]
      cases found : u.findParent id with
      | none => exact admitting.lost found
      | some parent =>
          have most := enough parent found
          simp only [exits_ite, exits_pure]
          refine ⟨fun less => by omega, fun whole =>
            ⟨taken, admitting, reached, fun _ => admitting.finished found whole⟩⟩
  | succ rounds ih =>
      unfold admitParent
      simp only [exits_bind, exits_get]
      cases found : u.findParent id with
      | none => exact admitting.lost found
      | some parent =>
          have most := enough parent found
          have own := (findParent_some found).2
          simp only [exits_ite, exits_pure]
          refine ⟨fun less => ?_, fun whole =>
            ⟨taken, admitting, reached, fun _ => admitting.finished found whole⟩⟩
          have piece := (admitting.nextPiece found).trans (if_pos less)
          simp only [exits_bind, exits_ofExcept]
          refine ⟨fun a next => ?_, fun e next => .unmapped (by rw [piece, next]; rfl)⟩
          rw [next] at piece
          obtain ⟨group, positive, -⟩ := HbmConfig.nextAccess_ok checked.burst checked.interleave next
          obtain ⟨byte, mapped⟩ := group.mapped
          have hchannel := HbmConfig.map_channel count mapped
          rw [onController_exits hchannel]
          simp only [exits_bind, exits_get, exits_pure, update_side, exits_ite, HbmOp.beq_read,
            Bool.not_not, Bool.not_eq_true']
          refine ⟨fun full => ?_, fun free => ?_⟩
          · refine ⟨taken, admitting, reached, fun _ => AdmissionFails.block_iff piece
              fun slots => ?_⟩
            have free := (admitting.free_iff a).mpr slots
            unfold HbmController.free at free
            cases full.symm.trans free
          · have slots := (admitting.free_iff a).mp (Bool.not_eq_false _ ▸ free)
            refine (admitAccess_exits admitting hchannel (fun off => never off _) group.of.parentId
              slots).mono (fun _ t h => ?_) fun _ _ fails => .refresh piece slots fails
            obtain ⟨sound, after⟩ := h
            have fails : ∀ e, s.AdmissionFails cfg e taken (id :: line) ↔
                s.AdmissionFails cfg e (taken ++ [a]) (id :: line) :=
              fun e => AdmissionFails.take_iff piece slots (sound e)
            have reached' : Reached (taken ++ [a]) (a.address.flatChannel :: touched) := by
              intro channel hit
              rcases List.mem_cons.mp hit with rfl | hit
              · exact ⟨a, List.mem_append_right _ List.mem_cons_self, rfl⟩
              · obtain ⟨b, hb, at_⟩ := reached channel hit
                exact ⟨b, List.mem_append_left _ hb, at_⟩
            refine (ih after reached' fun parent' found' => ?_).mono (fun touched v h => ?_)
              fun e _ h => (fails e).mpr h
            · obtain ⟨transaction, bytes⟩ := admitting.progress after
                (group.of.parentId.trans own) found found'
              rw [transaction, bytes]
              omega
            · obtain ⟨taken', rest⟩ := h
              exact ⟨taken', rest.1, rest.2.1, fun e => (fails e).trans (rest.2.2 e)⟩

/-- The waiting transactions. -/
theorem admitPending_exits (checked : cfg.Checked) (count : cfg.channelCount ≠ 0)
    (never : cfg.controller.refreshInterval = 0 → ∀ channel,
      (s.controllers channel).nextRefreshDue = none)
    {touched : List Nat} (admitting : Admitting cfg s taken u) (reached : Reached taken touched)
    (line : List Nat) :
    Exits (admitPending cfg line touched)
      (fun touched t => ∃ taken', Admitting cfg s taken' t ∧ Reached taken' touched ∧
        ∀ e, ¬ s.AdmissionFails cfg e taken line)
      (fun e _ => s.AdmissionFails cfg e taken line) u := by
  induction line generalizing taken touched u with
  | nil => exact ⟨taken, admitting, reached, fun _ => AdmissionFails.not_nil⟩
  | cons id rest ih =>
      unfold admitPending
      simp only [exits_bind, exits_get, exits_modify]
      refine (admitParent_exits checked count never admitting reached (fun parent found => ?_)
        rest).mono (fun touched t h => ?_) fun _ _ h => h
      · rw [found]
        exact Nat.sub_le _ _
      · obtain ⟨taken', after, reached', fails⟩ := h
        have erased : ∀ v : HbmSystem, v.scheduler = t.scheduler → v.parents = t.parents →
            v.controllers = t.controllers → Admitting cfg s taken' v := by
          intro v scheduler parents controllers
          have now : v.now = t.now := congrArg EventQueue.now scheduler
          have found : ∀ id, v.findParent id = t.findParent id := fun id => by
            unfold HbmSystem.findParent
            rw [parents]
          exact ⟨now.trans after.now, fun id => (by rw [found]; exact after.parents id),
            controllers ▸ after.slots, controllers ▸ after.untouched,
            controllers ▸ after.prepared⟩
        refine (ih (erased _ ?_ ?_ ?_) reached').mono (fun _ _ h => ?_) fun e _ h => (fails e).mpr h
        · split
          · split <;> rfl
          · rfl
        · split
          · split <;> rfl
          · rfl
        · split
          · split <;> rfl
          · rfl
        · obtain ⟨taken'', last, reached'', calm⟩ := h
          exact ⟨taken'', last, reached'', fun e failed => calm e ((fails e).mp failed)⟩

/-! ### The touched channels -/

/-- Nothing due at a touched channel lies in the past. -/
def Future (touched : List Nat) (s : HbmSystem) : Prop :=
  ∀ channel ∈ touched, ∀ due, (s.controllers channel).nextRefreshDue = some due → s.now ≤ due

theorem Future.same {touched : List Nat} {t : HbmSystem} (future : Future touched u)
    (now : t.now = u.now)
    (dues : ∀ ch, (t.controllers ch).nextRefreshDue = (u.controllers ch).nextRefreshDue) :
    Future touched t := by
  intro channel hit due next
  rw [now]
  exact future channel hit due ((dues channel).symm.trans next)

/-- Arming a refresh event of the future succeeds. -/
theorem scheduleRefreshDue_returns {touched : List Nat} {channel : Nat}
    (hchannel : channel < cfg.channelCount) (hit : channel ∈ touched) (future : Future touched u) :
    Exits (scheduleRefreshDue cfg channel) (fun _ t => Future touched t) (fun _ _ => False) u := by
  unfold scheduleRefreshDue
  rw [exits_bind, onController_exits hchannel, exits_modifyGet]
  have claimed : (u.controllers channel).claimRefreshEvent.2.nextRefreshDue =
      (u.controllers channel).nextRefreshDue := by
    unfold HbmController.claimRefreshEvent
    split
    · rfl
    · split <;> rfl
  have kept : Future touched (u.update channel ((u.side channel).modifyCtl fun _ =>
      (u.controllers channel).claimRefreshEvent.2)) := by
    refine future.same rfl fun ch => ?_
    rw [update_controllers]
    split
    · subst ch
      exact claimed
    · rfl
  have due : ∀ due, (u.controllers channel).claimRefreshEvent.1 = some due → u.now ≤ due := by
    intro due claim
    unfold HbmController.claimRefreshEvent at claim
    split at claim
    · cases claim
    · rename_i next
      split at claim
      · cases claim
      · cases claim
        exact future channel hit due next
  dsimp only [HbmSystem.side]
  cases claim : (u.controllers channel).claimRefreshEvent.1 with
  | none => exact kept
  | some due_at =>
      refine (scheduleEvent_exits due_at _).mono (fun _ t h => ?_) fun _ _ h => ?_
      · obtain ⟨-, rfl⟩ := h
        exact kept.same rfl fun _ => rfl
      · exact absurd (due due_at claim) (Nat.not_le.mpr h.1)

/-- Waking a controller now or later succeeds. -/
theorem scheduleControllerWake_returns {touched : List Nat} {channel : Nat} (at_ : Nat)
    (hchannel : channel < cfg.channelCount) (future : Future touched u) :
    Exits (scheduleControllerWake cfg channel at_) (fun _ t => Future touched t)
      (fun _ _ => False) u := by
  unfold scheduleControllerWake
  simp only [exits_bind, exits_get]
  rw [onController_exits hchannel, exits_modifyGet]
  have marked : ((u.controllers channel).markWakeup (max at_ u.now)).2.nextRefreshDue =
      (u.controllers channel).nextRefreshDue := by
    unfold HbmController.markWakeup
    split
    · split <;> rfl
    · rfl
  have kept : Future touched (u.update channel ((u.side channel).modifyCtl fun _ =>
      ((u.controllers channel).markWakeup (max at_ u.now)).2)) := by
    refine future.same rfl fun ch => ?_
    rw [update_controllers]
    split
    · subst ch
      exact marked
    · rfl
  rw [exits_ite]
  refine ⟨fun _ => (scheduleEvent_exits _ _).mono (fun _ t h => ?_) fun _ _ h => ?_, fun _ => kept⟩
  · obtain ⟨-, rfl⟩ := h
    exact kept.same rfl fun _ => rfl
  · exact absurd (Nat.le_max_right at_ u.now) (Nat.not_le.mpr h.1)

/-- The events of the touched channels can be scheduled. -/
theorem wakeTouched_returns {touched channels : List Nat}
    (exist : ∀ channel ∈ channels, channel < cfg.channelCount) (future : Future touched u) :
    Exits (wakeTouched cfg touched channels) (fun _ _ => True) (fun _ _ => False) u := by
  induction channels generalizing u with
  | nil => trivial
  | cons channel rest ih =>
      have hchannel := exist channel List.mem_cons_self
      have exist' := fun ch mem => exist ch (List.mem_cons_of_mem _ mem)
      unfold wakeTouched
      rw [exits_ite]
      refine ⟨fun hit => ?_, fun _ => ih exist' future⟩
      simp only [exits_bind, exits_get]
      refine (scheduleRefreshDue_returns hchannel (by simpa using hit) future).mono
        (fun _ t future => ?_) fun _ _ h => h
      exact (scheduleControllerWake_returns _ hchannel future).mono
        (fun _ _ future => ih exist' future) fun _ _ h => h

/-- `pump_admissions` throws an exception if and only if the state it starts from says so. -/
theorem pumpAdmissions_fails (checked : cfg.Checked) (count : cfg.channelCount ≠ 0)
    (never : cfg.controller.refreshInterval = 0 → ∀ channel,
      (s.controllers channel).nextRefreshDue = none) :
    Exits (pumpAdmissions cfg) (fun _ _ => ∀ e, ¬ s.AdmissionFails cfg e [] s.pendingAdmissions)
      (fun e _ => s.AdmissionFails cfg e [] s.pendingAdmissions) s := by
  unfold pumpAdmissions
  simp only [exits_bind, exits_get]
  refine (admitPending_exits checked count never (.start cfg s) (fun _ hit => by cases hit) _).mono
    (fun touched t h => ?_) fun _ _ h => h
  obtain ⟨taken, after, reached, calm⟩ := h
  refine (wakeTouched_returns (fun channel mem => List.mem_range.mp mem) ?_).mono
    (fun _ _ _ => calm) fun _ _ h => h.elim
  intro channel hit due next
  obtain ⟨a, ha, rfl⟩ := reached channel hit
  rw [after.now]
  exact Nat.le_of_lt ((after.prepared a ha).2.later due next)

end

end HbmSim
