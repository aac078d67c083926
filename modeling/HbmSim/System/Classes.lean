import HbmSim.System.Lineup
import HbmSim.System.Numbers
import HbmSim.System.Placement
import HbmSim.System.Rows

/-!
Row classes.

The marks of a queued access tell which row commands were issued on its behalf: a precharge
made it a conflict, an ACT activated it. The data command of the leader reads its class off
them, and nothing is issued on its behalf afterwards.
-/

namespace HbmSim

open HbmSim.Lib HbmSystem

/-- A command of the kind was issued on behalf of the access with the number. -/
def IssuedFor (recorded : List RecordedCommand) (k : HbmCommand) (number : Nat) : Prop :=
  ∃ r ∈ recorded, r.command = k ∧ r.sequence = some number

/-- A data command was issued for the access with the number. -/
def ServedIn (recorded : List RecordedCommand) (number : Nat) : Prop :=
  ∃ r ∈ recorded, r.command.isData = true ∧ r.sequence = some number

/-- The class of an access tells which row commands were issued on its behalf. -/
structure Classified (recorded : List RecordedCommand) (accessClass : HbmAccessClass)
    (number : Nat) : Prop where
  conflict : accessClass = .rowConflict ↔ IssuedFor recorded .preBank number
  closed : accessClass = .rowClosed ↔
    ¬ IssuedFor recorded .preBank number ∧ IssuedFor recorded .act number
  hit : accessClass = .rowHit ↔
    ¬ IssuedFor recorded .preBank number ∧ ¬ IssuedFor recorded .act number

/-- The marks of a queued access tell which row commands were issued on its behalf. -/
structure HbmAccess.Marked (recorded : List RecordedCommand) (a : HbmAccess) : Prop where
  conflict : a.accessClass = .rowConflict ↔ IssuedFor recorded .preBank a.sequence
  activated : a.activated = true ↔ IssuedFor recorded .act a.sequence
  unhit : a.accessClass ≠ .rowHit
  unserved : ¬ ServedIn recorded a.sequence

/-- Every queued access is marked. -/
def HbmController.MarkedQueues (c : HbmController) : Prop :=
  ∀ w, ∀ a ∈ c.queue w, a.Marked c.recorded

/-- The leader of a transfer is classified, and its followers have its class. -/
structure PhysicalAccess.Led (config : HbmControllerConfig) (physical : PhysicalAccess)
    (recorded : List RecordedCommand) (leader : LogicalCompletion)
    (followers : List LogicalCompletion) : Prop where
  completions : physical.completions = leader :: followers
  served : ServedIn recorded leader.sequence
  classified : Classified recorded leader.accessClass leader.sequence
  followed : ∀ f ∈ followers, f.accessClass = leader.accessClass ∧
    config.canMerge leader.toLogicalAccess f.toLogicalAccess = true

/-- The marks and the issued transfers of a system agree with its records. -/
structure Classes (cfg : HbmConfig) (s : HbmSystem) (d : Debts) : Prop where
  queued : ∀ channel, (s.controllers channel).MarkedQueues
  fresh : ∀ channel, ∀ r ∈ (s.controllers channel).recorded, ∀ n, r.sequence = some n →
    n < s.nextAccessSequence ∧ ∀ l ∈ d.slotsOn channel, l.sequence ≠ n
  issued : ∀ channel physical at_, .issued channel physical at_ ∈ s.trace →
    ∃ leader followers, physical.Led (cfg.channelConfig channel) (s.controllers channel).recorded
      leader followers

section

open HbmController

variable {config : HbmControllerConfig} {mapper : HbmAddressMapper} {s t : ControllerState}
  {now number : Nat} {recorded : List RecordedCommand} {r : RecordedCommand} {k : HbmCommand}
  {a b : HbmAccess} {w w' : Bool}

/-! ### Growing records -/

theorem issuedFor_cons : IssuedFor (r :: recorded) k number ↔
    r.command = k ∧ r.sequence = some number ∨ IssuedFor recorded k number := by
  unfold IssuedFor
  rw [List.exists_mem_cons_iff]

theorem servedIn_cons : ServedIn (r :: recorded) number ↔
    r.command.isData = true ∧ r.sequence = some number ∨ ServedIn recorded number := by
  unfold ServedIn
  rw [List.exists_mem_cons_iff]

/-- A command of another kind. -/
theorem issuedFor_of_ne (other : r.command ≠ k) :
    IssuedFor (r :: recorded) k number ↔ IssuedFor recorded k number := by
  rw [issuedFor_cons, or_iff_right fun both => other both.1]

/-- A command for another access. -/
theorem issuedFor_of_other (other : r.sequence ≠ some number) :
    IssuedFor (r :: recorded) k number ↔ IssuedFor recorded k number := by
  rw [issuedFor_cons, or_iff_right fun both => other both.2]

/-- Records of other accesses do not serve this one. -/
theorem servedIn_of_other (other : r.sequence ≠ some number) :
    ServedIn (r :: recorded) number ↔ ServedIn recorded number := by
  rw [servedIn_cons, or_iff_right fun both => other both.2]

/-- An access stays marked as the record grows for others. -/
theorem HbmAccess.Marked.cons (h : a.Marked recorded) (other : r.sequence ≠ some a.sequence) :
    a.Marked (r :: recorded) where
  conflict := h.conflict.trans (issuedFor_of_other other).symm
  activated := h.activated.trans (issuedFor_of_other other).symm
  unhit := h.unhit
  unserved := mt (servedIn_of_other other).mp h.unserved

/-- So does a class that was given. -/
theorem Classified.cons {accessClass : HbmAccessClass} (h : Classified recorded accessClass number)
    (other : r.sequence ≠ some number) : Classified (r :: recorded) accessClass number where
  conflict := h.conflict.trans (issuedFor_of_other other).symm
  closed := by
    rw [issuedFor_of_other other, issuedFor_of_other other]
    exact h.closed
  hit := by
    rw [issuedFor_of_other other, issuedFor_of_other other]
    exact h.hit

/-- So does the class of a whole transfer. -/
theorem PhysicalAccess.Led.cons {physical : PhysicalAccess} {leader : LogicalCompletion}
    {followers : List LogicalCompletion} (h : physical.Led config recorded leader followers)
    (other : r.sequence ≠ some leader.sequence) :
    physical.Led config (r :: recorded) leader followers where
  completions := h.completions
  served := (servedIn_of_other other).mpr h.served
  classified := h.classified.cons other
  followed := h.followed

/-- The marks eligibility and starvation leave do not matter. -/
theorem HbmAccess.Marked.of_core (h : a.Marked recorded) (core : b.core = a.core) :
    b.Marked recorded := by
  have number : b.sequence = a.sequence :=
    congrArg LogicalAccess.sequence (HbmAccess.logical_of_core core)
  have accessClass : b.accessClass = a.accessClass := (congrArg HbmAccess.accessClass core :)
  have activated : b.activated = a.activated := (congrArg HbmAccess.activated core :)
  constructor
  case conflict =>
    rw [accessClass, number]
    exact h.conflict
  case activated =>
    rw [activated, number]
    exact h.activated
  case unhit =>
    rw [accessClass]
    exact h.unhit
  case unserved =>
    rw [number]
    exact h.unserved

/-- The first command of an access changes nothing the marks speak about. -/
theorem started_marks (a : HbmAccess) (now : Nat) :
    (started a now).accessClass = a.accessClass ∧ (started a now).activated = a.activated ∧
      (started a now).sequence = a.sequence := by
  unfold started startAccess
  split
  · exact ⟨rfl, rfl, rfl⟩
  · exact ⟨rfl, rfl, rfl⟩

/-- An ACT activates the access it is issued for. -/
theorem HbmAccess.Marked.activate (h : a.Marked recorded) (command : r.command = .act)
    (own : r.sequence = some a.sequence) :
    HbmAccess.Marked (r :: recorded) { started a now with activated := true } := by
  obtain ⟨accessClass, -, number⟩ := started_marks a now
  constructor
  case conflict =>
    show (started a now).accessClass = .rowConflict ↔ IssuedFor _ _ (started a now).sequence
    rw [accessClass, number, issuedFor_of_ne (by rw [command]; decide)]
    exact h.conflict
  case activated =>
    show true = true ↔ IssuedFor _ _ (started a now).sequence
    rw [number, issuedFor_cons]
    exact iff_of_true rfl (.inl ⟨command, own⟩)
  case unhit =>
    show (started a now).accessClass ≠ .rowHit
    rw [accessClass]
    exact h.unhit
  case unserved =>
    show ¬ ServedIn _ (started a now).sequence
    rw [number, servedIn_cons, command]
    exact not_or.mpr ⟨fun both => Bool.false_ne_true both.1, h.unserved⟩

/-- A precharge of another row makes the access it is issued for a conflict. -/
theorem HbmAccess.Marked.precharge (h : a.Marked recorded) (command : r.command = .preBank)
    (own : r.sequence = some a.sequence) {bank : HbmBankState} {other : Nat}
    (opened : bank.openRow = some other) (differs : other ≠ a.address.row) :
    HbmAccess.Marked (r :: recorded) (precharged bank (started a now)) := by
  obtain ⟨-, activated, number⟩ := started_marks a now
  have row : (started a now).address.row = a.address.row := by
    rw [started_logical]
  have closes : bank.openRow.isSome ∧ bank.openRow ≠ some (started a now).address.row := by
    rw [opened, row]
    exact ⟨rfl, fun same => differs (Option.some.inj same)⟩
  unfold precharged
  rw [if_pos closes]
  constructor
  case conflict =>
    show HbmAccessClass.rowConflict = .rowConflict ↔ IssuedFor _ _ (started a now).sequence
    rw [number, issuedFor_cons]
    exact iff_of_true rfl (.inl ⟨command, own⟩)
  case activated =>
    show (started a now).activated = true ↔ IssuedFor _ _ (started a now).sequence
    rw [activated, number, issuedFor_of_ne (by rw [command]; decide)]
    exact h.activated
  case unhit => exact fun same => by cases same
  case unserved =>
    show ¬ ServedIn _ (started a now).sequence
    rw [number, servedIn_cons, command]
    exact not_or.mpr ⟨fun both => Bool.false_ne_true both.1, h.unserved⟩

/-- The leader of a transfer gets its class from its marks. -/
theorem HbmAccess.Marked.classified (h : a.Marked recorded) (data : r.command.isData = true) :
    Classified (r :: recorded) (leader a now).accessClass a.sequence := by
  obtain ⟨accessClass, activated, -⟩ := started_marks a now
  have act : IssuedFor (r :: recorded) .act a.sequence ↔ a.activated = true :=
    (issuedFor_of_ne fun same => by rw [same] at data; cases data).trans h.activated.symm
  have precharge : IssuedFor (r :: recorded) .preBank a.sequence ↔ a.accessClass = .rowConflict :=
    (issuedFor_of_ne fun same => by rw [same] at data; cases data).trans h.conflict.symm
  have settled : (leader a now).accessClass =
      if !a.activated && a.accessClass ≠ .rowConflict then .rowHit else a.accessClass := by
    unfold leader settleClass
    rw [apply_ite HbmAccess.accessClass, activated, accessClass]
  rw [settled]
  cases marked : a.accessClass with
  | rowHit => exact absurd marked h.unhit
  | rowClosed | rowConflict =>
      constructor
      all_goals
        rw [precharge, marked]
        try rw [act]
        cases a.activated <;> simp

/-! ### Steps of a controller -/

/-- A command is recorded for a queued access at most. -/
def RecordsQueued (s t : ControllerState) : Prop :=
  t.ctl.recorded = s.ctl.recorded ∨
    ∃ r, Appends r s t ∧ ∀ n, r.sequence = some n → n ∈ s.ctl.queuedNumbers

/-- A queued access is numbered. -/
theorem number_mem {c : HbmController} {index : Nat} (ha : (c.queue w)[index]? = some a) :
    a.sequence ∈ c.queuedNumbers :=
  mem_queuedNumbers (List.mem_map_of_mem (List.mem_of_getElem? ha))

/-- Accesses at different places have different numbers. -/
theorem number_ne {c : HbmController} (nodup : c.queuedNumbers.Nodup) {i j : Nat}
    (ha : (c.queue w)[i]? = some a) (hb : (c.queue w')[j]? = some b)
    (apart : w' = w → j ≠ i) : b.sequence ≠ a.sequence := by
  intro same
  unfold HbmController.queuedNumbers HbmController.queued at nodup
  rw [List.map_append, List.map_map, List.map_map, List.nodup_append] at nodup
  obtain ⟨reads, writes, disjoint⟩ := nodup
  have own : ∀ {v} {x : HbmAccess}, x ∈ c.queue v →
      x.sequence ∈ (c.queue v).map (LogicalAccess.sequence ∘ HbmAccess.toLogicalAccess) :=
    fun hx => List.mem_map_of_mem hx
  have mine := own (List.mem_of_getElem? ha)
  have other := own (List.mem_of_getElem? hb)
  have within : ((c.queue w).map (LogicalAccess.sequence ∘ HbmAccess.toLogicalAccess)).Nodup := by
    cases w
    · exact reads
    · exact writes
  by_cases side : w' = w
  · subst side
    have place : ∀ {k : Nat} {x : HbmAccess}, (c.queue w')[k]? = some x →
        ((c.queue w').map (LogicalAccess.sequence ∘ HbmAccess.toLogicalAccess))[k]? =
          some x.sequence := by
      intro k x hx
      rw [List.getElem?_map, hx]
      rfl
    have bound := (List.getElem?_eq_some_iff.mp (place hb)).1
    have both := (place hb).trans ((congrArg some same).trans (place ha).symm)
    exact apart rfl ((List.getElem?_inj bound within).mp both)
  · cases w <;> cases w'
    · exact side rfl
    · exact disjoint _ mine _ other same.symm
    · exact disjoint _ other _ mine same
    · exact side rfl

/-- An entry of a modified list is the changed one or an old one elsewhere. -/
theorem mem_modify_place {α : Type} {xs : List α} {index : Nat} {f : α → α} {y : α}
    (h : y ∈ xs.modify index f) :
    (∃ x, xs[index]? = some x ∧ y = f x) ∨ ∃ i, i ≠ index ∧ xs[i]? = some y := by
  obtain ⟨i, hi⟩ := List.mem_iff_getElem?.mp h
  rw [List.getElem?_modify] at hi
  cases hx : xs[i]? with
  | none => simp [hx] at hi
  | some x =>
      simp only [hx, Option.map_eq_map, Option.map_some, Option.some.injEq] at hi
      split at hi
      · rename_i own
        subst own
        exact .inl ⟨x, hx, hi.symm⟩
      · rename_i other
        exact .inr ⟨i, fun same => other same.symm, hi ▸ hx⟩

/-- A row command changes the marks of the access it is issued for, and no others. -/
theorem HbmController.MarkedQueues.row {index : Nat} {f : HbmAccess → HbmAccess}
    (h : s.ctl.MarkedQueues)
    (nodup : s.ctl.queuedNumbers.Nodup)
    (access : (s.ctl.queue w)[index]? = some a) (record : Appends r s t)
    (own : r.sequence = some a.sequence) (marked : (f a).Marked (r :: s.ctl.recorded))
    (queue : ∀ w', t.ctl.queue w' =
      if w' = w then (s.ctl.queue w).modify index f else s.ctl.queue w') : t.ctl.MarkedQueues := by
  intro w' b hb
  rw [record]
  have other : ∀ {j}, (s.ctl.queue w')[j]? = some b → (w' = w → j ≠ index) →
      b.Marked (r :: s.ctl.recorded) := by
    intro j place apart
    refine (h w' b (List.mem_of_getElem? place)).cons ?_
    rw [own]
    exact fun same => number_ne nodup access place apart (Option.some.inj same).symm
  rw [queue] at hb
  split at hb
  · rename_i side
    subst side
    rcases mem_modify_place hb with ⟨x, hx, rfl⟩ | ⟨j, apart, place⟩
    · rw [access] at hx
      cases hx
      exact marked
    · exact other place fun _ => apart
  · rename_i side
    obtain ⟨j, place⟩ := List.mem_iff_getElem?.mp hb
    exact other place fun same => absurd same side

theorem activated_appends {index : Nat} {banks : List HbmBankState} :
    Appends r s (activatedState config s w index a r banks) := by
  unfold Appends
  rw [activatedState_ctl]
  rfl

theorem precharged_appends {index : Nat} {bank : HbmBankState} {banks : List HbmBankState} :
    Appends r s (prechargedState config s w index a r bank banks) := by
  unfold Appends
  rw [prechargedState_ctl]
  rfl

/-- A row command is recorded for a queued access. -/
theorem HbmController.RowStep.records (step : RowStep config mapper now s t) :
    RecordsQueued s t := by
  cases step with
  | activate demand =>
      refine .inr ⟨_, activated_appends, fun n hn => ?_⟩
      cases hn
      exact number_mem demand.access
  | precharge demand =>
      refine .inr ⟨_, precharged_appends, fun n hn => ?_⟩
      cases hn
      exact number_mem demand.access

/-- A row command marks the access it is issued for, and no other. -/
theorem HbmController.RowStep.marked (step : RowStep config mapper now s t)
    (standard : config.standard.isSome = true) (nodup : s.ctl.queuedNumbers.Nodup)
    (h : s.ctl.MarkedQueues) : t.ctl.MarkedQueues := by
  cases step with
  | @activate w index bankIndex a banks demand =>
      have own := h w a (List.mem_of_getElem? demand.access)
      refine h.row nodup demand.access activated_appends rfl
        (f := fun _ => { started a now with activated := true }) (own.activate rfl rfl) fun w' => ?_
      rw [activatedState_queue]
  | @precharge w index bankIndex a bank banks demand local_ bank_at =>
      have own := h w a (List.mem_of_getElem? demand.access)
      obtain ⟨bankIndex', bank', hlocal, hbank, planned⟩ :=
        (plannedCommand_ok demand.planned).planned
      rw [local_] at hlocal
      cases hlocal
      rw [bank_at] at hbank
      cases hbank
      have closes : ∃ other, bank.openRow = some other ∧ other ≠ a.address.row := by
        generalize command : HbmCommand.preBank = k at planned
        cases planned with
        | precharge closes =>
            refine closes.resolve_right fun custom => ?_
            rw [custom.1] at standard
            cases standard
        | activate => cases command
        | data =>
            unfold HbmCommandPlanner.requestedCommand at command
            split at command
            all_goals split at command
            all_goals cases command
      obtain ⟨other, opened, differs⟩ := closes
      refine h.row nodup demand.access precharged_appends rfl
        (f := fun _ => precharged bank (started a now))
        (own.precharge rfl rfl opened differs) fun w' => ?_
      rw [prechargedState_queue]

/-- A command for no queued access leaves the marks as they are. -/
theorem HbmController.MarkedQueues.maintain (h : s.ctl.MarkedQueues) (record : Appends r s t)
    (maintenance : r.sequence = none) (queue : ∀ w, t.ctl.queue w = s.ctl.queue w) :
    t.ctl.MarkedQueues := by
  intro w a ha
  rw [record]
  refine (h w a (queue w ▸ ha)).cons ?_
  rw [maintenance]
  exact fun same => by cases same

/-- Every command but a transfer is recorded for a queued access or none. -/
theorem HbmController.ControllerStep.records (step : ControllerStep config mapper now s t) :
    RecordsQueued s t := by
  cases step with
  | retouch touched => exact .inl touched.recorded
  | raise =>
      refine .inl ?_
      show (HbmController.raise config s.ctl _).recorded = s.ctl.recorded
      unfold HbmController.raise
      split <;> rfl
  | advanceDue => exact .inl rfl
  | maintain step =>
      obtain ⟨r, record, maintenance⟩ := step.appends
      refine .inr ⟨r, record, fun n hn => ?_⟩
      rw [maintenance] at hn
      cases hn
  | row step => exact step.records

/-- Every command but a transfer keeps the marks. -/
theorem HbmController.ControllerStep.marked (step : ControllerStep config mapper now s t)
    (standard : config.standard.isSome = true) (nodup : s.ctl.queuedNumbers.Nodup)
    (h : s.ctl.MarkedQueues) : t.ctl.MarkedQueues := by
  cases step with
  | retouch touched =>
      intro w b hb
      obtain ⟨a, ha, core⟩ := touched.mem hb
      rw [touched.recorded]
      exact (h w a ha).of_core core.symm
  | raise due =>
      intro w b hb
      rw [show (s.modifyCtl (·.raise config due)).ctl.queue w = s.ctl.queue w from
        raise_queue s.ctl due w] at hb
      have same : (s.modifyCtl (·.raise config due)).ctl.recorded = s.ctl.recorded := by
        show (HbmController.raise config s.ctl due).recorded = s.ctl.recorded
        unfold HbmController.raise
        split <;> rfl
      rw [same]
      exact h w b hb
  | advanceDue => exact h
  | maintain step =>
      obtain ⟨r, record, maintenance⟩ := step.appends
      exact h.maintain record maintenance step.queue
  | row step => exact step.marked standard nodup h

/-! ### Data commands -/

theorem transferred_appends {index : Nat} {banks : List HbmBankState} {slot : DataSlot} :
    Appends r s (transferredState config s w index a r banks slot) := by
  unfold Appends
  rw [transferredState_ctl]
  rfl

theorem taken_appends {index : Nat} {banks : List HbmBankState} :
    Appends r s (takenState config s w index a r banks) := by
  unfold Appends
  rw [takenState_ctl]
  rfl

/-- What stays in the queues after a data command stood at another place. -/
theorem takeAccesses_place {c : HbmController} {index : Nat} {l : HbmAccess}
    (hb : b ∈ (takeAccesses config c w index l).2.queue w') :
    ∃ j, (c.queue w')[j]? = some b ∧ (w' = w → j ≠ index) := by
  by_cases side : w' = w
  · subst side
    obtain ⟨j, apart, place⟩ :=
      List.mem_eraseIdx_iff_getElem?.mp (takeAccesses_sublist.mem hb)
    exact ⟨j, place, fun _ => apart⟩
  · obtain ⟨j, place⟩ := List.mem_iff_getElem?.mp (takeAccesses_mem hb)
    exact ⟨j, place, fun same => absurd same side⟩

/-- A data command takes the access it is issued for out of the queues. -/
theorem HbmController.MarkedQueues.take {index : Nat} {l : HbmAccess} (h : s.ctl.MarkedQueues)
    (nodup : s.ctl.queuedNumbers.Nodup)
    (access : (s.ctl.queue w)[index]? = some a) (record : Appends r s t)
    (own : r.sequence = some a.sequence)
    (queue : ∀ w', t.ctl.queue w' = (takeAccesses config s.ctl w index l).2.queue w') :
    t.ctl.MarkedQueues := by
  intro w' b hb
  rw [record]
  obtain ⟨j, place, apart⟩ := takeAccesses_place (queue w' ▸ hb)
  refine (h w' b (List.mem_of_getElem? place)).cons ?_
  rw [own]
  exact fun same => number_ne nodup access place apart (Option.some.inj same).symm

/-- A transfer is recorded for the leader it takes. -/
theorem HbmController.DataStep.records {physical : PhysicalAccess}
    (step : DataStep config mapper now s physical t) : RecordsQueued s t := by
  cases step with
  | mk demand =>
      refine .inr ⟨_, transferred_appends, fun n hn => ?_⟩
      cases hn
      exact number_mem demand.access

/-- The accesses that stay queued keep their marks. -/
theorem HbmController.DataStep.marked {physical : PhysicalAccess}
    (step : DataStep config mapper now s physical t) (nodup : s.ctl.queuedNumbers.Nodup)
    (h : s.ctl.MarkedQueues) : t.ctl.MarkedQueues := by
  cases step with
  | mk demand =>
      exact h.take nodup demand.access transferred_appends rfl fun _ => transferredState_queue

/-- A lost transfer is recorded for the leader it takes. -/
theorem HbmController.LostStep.records {lost : List LogicalAccess}
    (step : LostStep config mapper now s lost t) : RecordsQueued s t := by
  cases step with
  | mk demand =>
      refine .inr ⟨_, taken_appends, fun n hn => ?_⟩
      cases hn
      exact number_mem demand.access

/-- The accesses that stay queued keep their marks. -/
theorem HbmController.LostStep.marked {lost : List LogicalAccess}
    (step : LostStep config mapper now s lost t) (nodup : s.ctl.queuedNumbers.Nodup)
    (h : s.ctl.MarkedQueues) : t.ctl.MarkedQueues := by
  cases step with
  | mk demand =>
      exact h.take nodup demand.access taken_appends rfl fun _ => takenState_queue

/-- The transfer of a data command has its leader classified. -/
theorem HbmController.DataStep.led {physical : PhysicalAccess}
    (step : DataStep config mapper now s physical t) (h : s.ctl.MarkedQueues) :
    ∃ leader followers, physical.Led config t.ctl.recorded leader followers := by
  cases step with
  | @mk w index bankIndex busReady duration a k priority banks slot demand data =>
      obtain ⟨followers, taken, followed⟩ :=
        @takeAccesses_cons config s.ctl w index (leader a now)
      let complete : HbmAccess → LogicalCompletion := fun x =>
        completionOf config (finishAccess (startAccess x slot.issuedAt) slot)
      have complete_logical : ∀ x, (complete x).toLogicalAccess = x.toLogicalAccess := by
        intro x
        show (startAccess x slot.issuedAt).toLogicalAccess = x.toLogicalAccess
        unfold startAccess
        split <;> rfl
      have complete_class : ∀ x, (complete x).accessClass = x.accessClass := by
        intro x
        show (startAccess x slot.issuedAt).accessClass = x.accessClass
        unfold startAccess
        split <;> rfl
      have number : (complete (leader a now)).sequence = a.sequence := by
        rw [complete_logical, leader_logical]
      have own := h w a (List.mem_of_getElem? demand.access)
      refine ⟨complete (leader a now), followers.map complete, ?_, ?_, ?_, fun f hf => ?_⟩
      · show ((takenAccesses config s w index a now).map _).map (completionOf config) = _
        unfold takenAccesses
        rw [taken, List.map_map]
        rfl
      · rw [transferred_appends, number, servedIn_cons]
        exact .inl ⟨data, rfl⟩
      · rw [transferred_appends, number, complete_class]
        exact own.classified data
      · obtain ⟨x, hx, rfl⟩ := List.mem_map.mp hf
        rw [complete_class, complete_class, complete_logical, complete_logical]
        exact followed x hx

end

section

open HbmController

variable {cfg : HbmConfig} {s t : HbmSystem} {d d' : Debts}

/-! ### Runs -/

/-- A change that leaves the queues and the records alone. -/
theorem Classes.keep (h : Classes cfg s d)
    (queue : ∀ ch w, (t.controllers ch).queue w = (s.controllers ch).queue w)
    (recorded : ∀ ch, (t.controllers ch).recorded = (s.controllers ch).recorded)
    (slots : ∀ ch, d'.slotsOn ch = d.slotsOn ch)
    (next : t.nextAccessSequence = s.nextAccessSequence)
    (trace : ∀ ch physical at_, .issued ch physical at_ ∈ t.trace →
      .issued ch physical at_ ∈ s.trace) : Classes cfg t d' where
  queued ch w a ha := by
    rw [recorded]
    exact h.queued ch w a (queue ch w ▸ ha)
  fresh ch r hr n hn := by
    rw [next, slots]
    exact h.fresh ch r (recorded ch ▸ hr) n hn
  issued ch physical at_ mem := by
    rw [recorded]
    exact h.issued ch physical at_ (trace ch physical at_ mem)

/-- A change of one controller that leaves its queues and its record alone. -/
theorem Classes.modify (h : Classes cfg s d) {channel : Nat} {c : HbmController}
    (controllers : ∀ ch, t.controllers ch = if ch = channel then c else s.controllers ch)
    (queue : ∀ w, c.queue w = (s.controllers channel).queue w)
    (recorded : c.recorded = (s.controllers channel).recorded) (slots : d'.slots = d.slots)
    (next : t.nextAccessSequence = s.nextAccessSequence)
    (trace : ∀ ch physical at_, .issued ch physical at_ ∈ t.trace →
      .issued ch physical at_ ∈ s.trace) : Classes cfg t d' := by
  refine h.keep (fun ch w => ?_) (fun ch => ?_) (fun ch => ?_) next trace
  · rw [controllers]
    split
    · rename_i own
      subst own
      exact queue w
    · rfl
  · rw [controllers]
    split
    · rename_i own
      subst own
      exact recorded
    · rfl
  · unfold Debts.slotsOn
    rw [slots]

/-- A step of one channel's controller. -/
theorem Classes.update (h : Classes cfg s d) (ranked : Ranked s) (balanced : Balanced s d)
    {channel : Nat} {t' : ControllerState} (marked : t'.ctl.MarkedQueues)
    (records : RecordsQueued (s.side channel) t') : Classes cfg (s.update channel t') d := by
  have nodup := ranked.queued_nodup balanced channel
  constructor
  case queued =>
    intro ch
    rw [update_controllers]
    split
    · exact marked
    · exact h.queued ch
  case fresh =>
    intro ch r hr n hn
    rw [update_controllers] at hr
    have before : r ∈ (s.controllers ch).recorded → n < s.nextAccessSequence ∧
        ∀ l ∈ d.slotsOn ch, l.sequence ≠ n := fun old => h.fresh ch r old n hn
    split at hr
    · rename_i own
      subst own
      rcases records with same | ⟨new, record, queued⟩
      · exact before (same ▸ hr)
      · rw [record] at hr
        rcases List.mem_cons.mp hr with rfl | old
        · have mem := queued n hn
          refine ⟨ranked.queued_lt balanced mem, fun l hl same => ?_⟩
          exact (List.nodup_append.mp nodup).2.2 n mem _ (List.mem_map_of_mem hl) same.symm
        · exact before old
    · exact before hr
  case issued =>
    intro ch physical at_ mem
    obtain ⟨leader, followers, led⟩ := h.issued ch physical at_ mem
    refine ⟨leader, followers, ?_⟩
    rw [update_controllers]
    split
    · rename_i own
      subst own
      rcases records with same | ⟨new, record, queued⟩
      · exact same ▸ led
      · rw [record]
        refine led.cons fun same => ?_
        -- nothing is issued any more for an access that has been served
        obtain ⟨w, a, ha, number⟩ := of_mem_queuedNumbers (queued _ same)
        exact (h.queued ch w a ha).unserved (number.symm ▸ led.served)
    · exact led

/-- A pushed access has no command issued on its behalf. -/
theorem HbmAccess.Marked.blank {recorded : List RecordedCommand} {a : HbmAccess}
    (blank : a = { toLogicalAccess := a.toLogicalAccess, enqueuedAt := a.arrivalTime })
    (unused : ∀ r ∈ recorded, r.sequence ≠ some a.sequence) : a.Marked recorded where
  conflict := by
    rw [blank]
    refine iff_of_false (fun same => by cases same) ?_
    rintro ⟨r, hr, -, own⟩
    exact unused r hr own
  activated := by
    rw [blank]
    refine iff_of_false (fun same => by cases same) ?_
    rintro ⟨r, hr, -, own⟩
    exact unused r hr own
  unhit := by
    rw [blank]
    exact fun same => by cases same
  unserved := by
    rintro ⟨r, hr, -, own⟩
    exact unused r hr own

/-- A charged access has a number of its own. -/
theorem Classes.charge (h : Classes cfg s d) (parent : ParentRequest) (access : HbmAccess)
    {closing : Option Nat} : Classes cfg (s.charge parent access)
      { d with slots := s.numbered access :: d.slots, closing := closing } where
  queued ch w a ha := by
    rw [charge_controllers] at ha ⊢
    split at ha
    · rename_i own
      subst own
      rw [if_pos rfl]
      exact h.queued _ w a ha
    · rename_i other
      rw [if_neg other]
      exact h.queued ch w a ha
  fresh ch r hr n hn := by
    have old : r ∈ (s.controllers ch).recorded := by
      rw [charge_controllers] at hr
      split at hr
      · rename_i own
        subst own
        exact hr
      · exact hr
    obtain ⟨lt, apart⟩ := h.fresh ch r old n hn
    refine ⟨Nat.lt_succ_of_lt lt, fun l hl => ?_⟩
    unfold Debts.slotsOn at hl
    rw [List.flatMap_cons] at hl
    rcases List.mem_append.mp hl with new | hl
    · split at new
      · obtain rfl := List.mem_singleton.mp new
        exact Nat.ne_of_gt lt
      · cases new
    · exact apart l hl
  issued ch physical at_ mem := by
    have older : .issued ch physical at_ ∈ s.trace := by
      rcases List.mem_cons.mp mem with same | mem
      · cases same
      · exact mem
    rw [charge_controllers]
    split
    · rename_i own
      subst own
      exact h.issued _ physical at_ older
    · exact h.issued ch physical at_ older

/-- A pushed access is marked, as no command has been issued on its behalf. -/
theorem Classes.push (h : Classes cfg s d) {access : HbmAccess} {rest : List HbmAccess}
    (slot : d.slots = access :: rest)
    (blank : access = { toLogicalAccess := access.toLogicalAccess }) {wakes rearm : List Nat} :
    Classes cfg (s.push cfg access)
      { d with slots := rest, wakes := wakes, rearm := rearm } := by
  have recorded : ∀ ch, ((s.push cfg access).controllers ch).recorded =
      (s.controllers ch).recorded := by
    intro ch
    rw [push_controllers]
    split
    · rename_i own
      subst own
      rfl
    · rfl
  constructor
  case queued =>
    intro ch w a ha
    rw [recorded]
    rw [push_controllers] at ha
    split at ha
    · rename_i own
      subst own
      rw [HbmController.push_queue] at ha
      split at ha
      · rcases List.mem_append.mp ha with old | new
        · exact h.queued _ w a old
        · obtain rfl := List.mem_singleton.mp new
          refine .blank ?_ fun r hr own => ?_
          · rw [blank]
          · refine (h.fresh _ r hr _ own).2 access.toLogicalAccess ?_ rfl
            unfold Debts.slotsOn
            rw [slot, List.flatMap_cons, if_pos rfl]
            exact List.mem_cons_self
      · exact h.queued _ w a ha
    · exact h.queued ch w a ha
  case fresh =>
    intro ch r hr n hn
    rw [recorded] at hr
    obtain ⟨lt, apart⟩ := h.fresh ch r hr n hn
    refine ⟨lt, fun l hl => apart l ?_⟩
    unfold Debts.slotsOn
    rw [slot, List.flatMap_cons]
    exact List.mem_append_right _ hl
  case issued =>
    intro ch physical at_ mem
    rw [recorded]
    exact h.issued ch physical at_ mem

/-- Every move of the system keeps the classes. -/
theorem Classes.move (standard : cfg.device.standard.isSome = true) {p q : HbmSystem × Debts}
    (move : Move cfg p q) (ranked : Ranked p.1) (balanced : Balanced p.1 p.2)
    (h : Classes cfg p.1 p.2) : Classes cfg q.1 q.2 := by
  have nodup := fun channel => List.Nodup.of_append_left (ranked.queued_nodup balanced channel)
  cases move with
  | @control s d channel t _ step =>
      exact h.update ranked balanced (step.marked standard (nodup channel) (h.queued channel))
        step.records
  | @stir s d channel t _ step =>
      exact (h.update ranked balanced (step.marked standard (nodup channel) (h.queued channel))
        step.records).keep (fun _ _ => rfl) (fun _ => rfl) (fun _ => rfl) rfl fun _ _ _ => id
  | @transfer s d channel physical t _ step =>
      have updated := h.update ranked balanced (step.marked (nodup channel) (h.queued channel))
        step.records
      refine ⟨updated.queued, updated.fresh, fun ch physical' at_ mem => ?_⟩
      rcases List.mem_cons.mp mem with same | mem
      · cases same
        have led := step.led (h.queued channel)
        show ∃ leader followers, physical.Led _ ((s.update channel t).controllers channel).recorded
          leader followers
        rw [update_controllers, if_pos rfl]
        exact led
      · exact updated.issued ch physical' at_ mem
  | @charge s d parent access => exact h.charge parent access
  | push _ slot _ _ blank => exact h.push slot blank
  | @wake s d channel at_ =>
      exact h.modify (markWake_controllers s channel at_) (fun _ => rfl) rfl rfl rfl fun _ _ _ => id
  | @arm s d channel due =>
      exact h.modify (markRefresh_controllers s channel due) (fun _ => rfl) rfl rfl rfl
        fun _ _ _ => id
  | @misarm s d channel due =>
      have same := modifyController_controllers s channel fun c =>
        { c with refreshDueAt := some due }
      exact h.modify same (fun _ => rfl) rfl rfl rfl fun _ _ _ => id
  | @credit s d channel access parent =>
      refine h.modify (credit_controllers cfg s channel access parent) (fun _ => rfl) rfl rfl rfl
        fun ch physical at_ mem => ?_
      rcases List.mem_cons.mp mem with same | mem
      · cases same
      · exact mem
  | accept | retire | notify | return_ =>
      refine h.keep (fun _ _ => rfl) (fun _ => rfl) (fun _ => rfl) rfl fun ch physical at_ mem => ?_
      rcases List.mem_cons.mp mem with same | mem
      · cases same
      · exact mem
  | _ => exact h.keep (fun _ _ => rfl) (fun _ => rfl) (fun _ => rfl) rfl fun _ _ _ => id

/-- Every turn of the simulation keeps the classes. -/
theorem Classes.turn {p q : HbmSystem × Debts}
    (turn : Turn cfg p q) (ranked : Ranked p.1) (balanced : Balanced p.1 p.2)
    (h : Classes cfg p.1 p.2) : Classes cfg q.1 q.2 := by
  have nodup := fun channel => List.Nodup.of_append_left (ranked.queued_nodup balanced channel)
  cases turn with
  | @wake s d event rest channel =>
      refine h.modify (modifyController_controllers (s.pop event rest) channel _)
        (fun w => (clearWakeup_queue _ _ w).1) ?_ rfl rfl fun _ _ _ => id
      split <;> rfl
  | @refreshDue s d event rest channel =>
      refine h.modify (modifyController_controllers (s.pop event rest) channel _)
        (fun w => (disarm_queue _ _ w).1) ?_ rfl rfl fun _ _ _ => id
      split <;> rfl
  | @lose s d channel lost t _ step =>
      exact (h.update ranked balanced (step.marked (nodup channel) (h.queued channel))
        step.records).keep (fun _ _ => rfl) (fun _ => rfl) (fun _ => rfl) rfl fun _ _ _ => id
  | _ => exact h.keep (fun _ _ => rfl) (fun _ => rfl) (fun _ => rfl) rfl fun _ _ _ => id

/-- In every run of a standard's device the classes are those of the record. -/
theorem HbmSystem.Run.classes (checked : cfg.Checked) (standard : cfg.device.standard.isSome = true)
    {p : HbmSystem × Debts} (run : Run cfg p) : Classes cfg p.1 p.2 := by
  induction run with
  | create =>
      refine ⟨fun _ w a ha => ?_, fun _ r hr => absurd hr List.not_mem_nil,
        fun _ _ _ mem => absurd mem List.not_mem_nil⟩
      cases w <;> cases ha
  | move run move ih =>
      exact ih.move standard move (run.ranked checked) (run.accounted checked).balanced
  | turn run turn ih =>
      exact ih.turn turn (run.ranked checked) (run.accounted checked).balanced

end

end HbmSim
