import Mathlib.Data.List.Perm.Basic
import HbmSim.Controller.Step

/-!
The shape of a controller is an invariant of its steps.
-/

namespace HbmSim

open HbmSim.Lib

/-! ### Rows -/

/-- A bank after a transition carries the flags of a bank before it. -/
theorem RowsChanged.mem {k : HbmCommand} {row index : Nat} {before after : List HbmBankState}
    (h : RowsChanged k row index before after) {b' : HbmBankState} (hb' : b' ∈ after) :
    ∃ b ∈ before, b'.refreshPending = b.refreshPending ∧ b'.rfmPending = b.rfmPending ∧
      b'.activationCount = b.activationCount := by
  obtain ⟨i, hi⟩ := List.mem_iff_getElem?.mp hb'
  have hlt : i < before.length := h.1 ▸ (List.getElem?_eq_some_iff.mp hi).1
  have change := h.2.2 i before[i] b' (List.getElem?_eq_getElem hlt) hi
  refine ⟨before[i], List.getElem_mem hlt, ?_⟩
  split at change
  · exact ⟨change.refreshPending, change.rfmPending, change.activationCount⟩
  · subst change
    exact ⟨rfl, rfl, rfl⟩

namespace HbmController

variable {config : HbmControllerConfig} {mapper : HbmAddressMapper} {s t : ControllerState}
  {now : Nat}

/-- No maintenance command closes its row by itself. -/
theorem MaintenancePlan.noAuto {c : HbmController} {candidate : MaintenanceCandidate}
    (plan : MaintenancePlan config mapper c now candidate) : candidate.command.isAuto = false := by
  cases plan with
  | allBank => dsimp only; split <;> rfl
  | perBank _ _ hrequested =>
      dsimp only
      split
      · rfl
      · rcases requestedMaintenance_cases hrequested with ⟨rfl, -⟩ | ⟨rfl, -⟩ <;> rfl

/-- The banks of a planned maintenance command change by one transition each. -/
theorem MaintenancePlan.rows {c : HbmController} {candidate : MaintenanceCandidate}
    {banks : List HbmBankState} (plan : MaintenancePlan config mapper c now candidate)
    (hbanks : transitionBanks config candidate.command 0 candidate.localBank c.banks =
      .ok banks) : RowsChanged candidate.command 0 candidate.localBank c.banks banks :=
  transitionBanks_ok (fun _ => plan.noAuto) hbanks

/-! ### Effects on the members -/

@[simp] theorem raise_queue (c : HbmController) (due : Nat) (w : Bool) :
    (c.raise config due).queue w = c.queue w := by
  unfold raise
  split <;> rfl

theorem settleMaintenance_banks (c : HbmController) (requested : HbmCommand) (bank : Nat) :
    (c.settleMaintenance requested bank).banks.length = c.banks.length := by
  unfold settleMaintenance
  split <;> simp

@[simp] theorem settleMaintenance_queue (c : HbmController) (requested : HbmCommand) (bank : Nat)
    (w : Bool) : (c.settleMaintenance requested bank).queue w = c.queue w := by
  unfold settleMaintenance
  split <;> rfl

@[simp] theorem maintained_queue {candidate : MaintenanceCandidate} {address : HbmAddress}
    {banks : List HbmBankState} {time : Nat} (w : Bool) :
    (maintained config s candidate address banks time).ctl.queue w = s.ctl.queue w := by
  unfold maintained
  dsimp only
  split
  · exact settleMaintenance_queue _ _ _ w
  · rfl

@[simp] theorem updateAccess_queue (c : HbmController) (w w' : Bool) (index : Nat)
    (f : HbmAccess → HbmAccess) :
    (c.updateAccess w index f).queue w' =
      if w' = w then (c.queue w).modify index f else c.queue w' := by
  unfold updateAccess
  rw [setQueue_queue]

@[simp] theorem stampCommand_queue (c : HbmController) (r : RecordedCommand) (w : Bool) :
    (c.stampCommand config r).queue w = c.queue w := rfl

@[simp] theorem commandIssued_queue {w w' : Bool} {index : Nat} {a : HbmAccess}
    {r : RecordedCommand} :
    (commandIssued config s w index a r).ctl.queue w' =
      if w' = w then (s.ctl.queue w).modify index (fun _ => started a r.issuedAt)
      else s.ctl.queue w' := by
  unfold commandIssued
  simp

@[simp] theorem activatedState_queue {w w' : Bool} {index : Nat} {a : HbmAccess}
    {r : RecordedCommand} {banks : List HbmBankState} :
    (activatedState config s w index a r banks).ctl.queue w' =
      if w' = w then
        (s.ctl.queue w).modify index fun _ => { started a r.issuedAt with activated := true }
      else s.ctl.queue w' := by
  unfold activatedState ControllerState.modifyCtl
  simp only [updateAccess_queue]
  split
  · show ((commandIssued config s w index a r).ctl.queue w).modify index _ = _
    rw [commandIssued_queue, if_pos rfl, List.modify_modify_eq]
    rfl
  · rename_i hw
    show (commandIssued config s w index a r).ctl.queue w' = _
    rw [commandIssued_queue, if_neg hw]

@[simp] theorem prechargedState_queue {w w' : Bool} {index : Nat} {a : HbmAccess}
    {r : RecordedCommand} {bank : HbmBankState} {banks : List HbmBankState} :
    (prechargedState config s w index a r bank banks).ctl.queue w' =
      if w' = w then
        (s.ctl.queue w).modify index fun _ => precharged bank (started a r.issuedAt)
      else s.ctl.queue w' := by
  unfold prechargedState ControllerState.modifyCtl
  show ((commandIssued config s w index a r).ctl.updateAccess w index _).queue w' = _
  rw [updateAccess_queue]
  split
  · rw [commandIssued_queue, if_pos rfl, List.modify_modify_eq]
    rfl
  · rename_i hw
    rw [commandIssued_queue, if_neg hw]

/-- The members of a controller after an ACT, apart from the queues. -/
theorem activatedState_ctl {w : Bool} {index : Nat} {a : HbmAccess} {r : RecordedCommand}
    {banks : List HbmBankState} :
    (activatedState config s w index a r banks).ctl =
      { s.ctl.stampCommand config r with
        readQueue := (activatedState config s w index a r banks).ctl.readQueue
        writeQueue := (activatedState config s w index a r banks).ctl.writeQueue
        banks := banks.modify r.bank (noteActivation config) } := by
  cases w <;> rfl

/-- The members of a controller after a precharge, apart from the queues. -/
theorem prechargedState_ctl {w : Bool} {index : Nat} {a : HbmAccess} {r : RecordedCommand}
    {bank : HbmBankState} {banks : List HbmBankState} :
    (prechargedState config s w index a r bank banks).ctl =
      { s.ctl.stampCommand config r with
        readQueue := (prechargedState config s w index a r bank banks).ctl.readQueue
        writeQueue := (prechargedState config s w index a r bank banks).ctl.writeQueue
        banks := banks } := by
  cases w <;> rfl

/-- A final command settles the maintenance and blocks the controller. -/
theorem maintained_final {candidate : MaintenanceCandidate} {address : HbmAddress}
    {banks : List HbmBankState} {time : Nat} (h : candidate.finalCommand = true) :
    (maintained config s candidate address banks time).ctl =
      (((s.ctl.stampCommand config ⟨candidate.command, address, candidate.localBank, time,
        none⟩).setBanks banks).settleMaintenance candidate.requested candidate.localBank).blockUntil
          time (maintenanceDuration candidate.requested config.timing) := by
  unfold maintained
  rw [if_pos h]

/-- A prerequisite only changes its banks. -/
theorem maintained_prerequisite {candidate : MaintenanceCandidate} {address : HbmAddress}
    {banks : List HbmBankState} {time : Nat} (h : candidate.finalCommand = false) :
    (maintained config s candidate address banks time).ctl =
      (s.ctl.stampCommand config ⟨candidate.command, address, candidate.localBank, time,
        none⟩).setBanks banks := by
  unfold maintained
  rw [if_neg (by simp [h])]

/-! ### Taking accesses out of a queue -/

theorem takeAccesses_congr {c c' : HbmController} {w : Bool} {index : Nat} {l : HbmAccess}
    (same : (c'.queue w).eraseIdx index = (c.queue w).eraseIdx index)
    (other : c'.queue (!w) = c.queue (!w)) :
    (takeAccesses config c' w index l).1 = (takeAccesses config c w index l).1 ∧
      ∀ w', (takeAccesses config c' w index l).2.queue w' =
        (takeAccesses config c w index l).2.queue w' := by
  cases w with
  | true =>
      refine ⟨rfl, fun w' => ?_⟩
      simp only [takeAccesses, if_true, setQueue_queue, same]
      cases w' with
      | true => rfl
      | false => simpa using other
  | false =>
      have merge : ∀ q, mergeFollowers config c' l q = mergeFollowers config c l q := by
        intro q
        have hwrites : c'.writeQueue = c.writeQueue := other
        unfold mergeFollowers
        rw [hwrites]
      simp only [takeAccesses, Bool.false_eq_true, if_false, same, merge, true_and]
      intro w'
      cases w' with
      | true => simpa using other
      | false => simp

/-- Taking an access out does not depend on what its command changed it to. -/
theorem takeAccesses_commandIssued {w : Bool} {index : Nat} {a l : HbmAccess}
    {r : RecordedCommand} :
    (takeAccesses config (commandIssued config s w index a r).ctl w index l).1 =
        (takeAccesses config s.ctl w index l).1 ∧
      ∀ w', (takeAccesses config (commandIssued config s w index a r).ctl w index l).2.queue w' =
        (takeAccesses config s.ctl w index l).2.queue w' := by
  apply takeAccesses_congr
  · rw [commandIssued_queue, if_pos rfl, List.eraseIdx_modify_of_eq]
  · rw [commandIssued_queue, if_neg (by simp)]

/-- What is taken and what stays are what was queued, with the leader's class on
the followers. -/
theorem takeAccesses_perm {c : HbmController} {w : Bool} {index : Nat} {a l : HbmAccess}
    (ha : (c.queue w)[index]? = some a) (hl : l.toLogicalAccess = a.toLogicalAccess) :
    (((takeAccesses config c w index l).1 ++ (takeAccesses config c w index l).2.queue w).map
      HbmAccess.toLogicalAccess).Perm ((c.queue w).map HbmAccess.toLogicalAccess) := by
  have split : (c.queue w).Perm (a :: (c.queue w).eraseIdx index) := by
    obtain ⟨hlt, rfl⟩ := List.getElem?_eq_some_iff.mp ha
    exact (List.getElem_cons_eraseIdx_perm hlt).symm
  have logical := split.map HbmAccess.toLogicalAccess
  rw [List.map_cons] at logical
  refine .trans ?_ logical.symm
  cases w with
  | true => simp [takeAccesses, hl]
  | false =>
      simp only [takeAccesses, Bool.false_eq_true, if_false, setQueue_queue, if_true,
        List.cons_append, List.map_cons, hl]
      refine .cons _ ?_
      unfold mergeFollowers
      split
      · simp
      · rw [List.map_append, List.map_map]
        have := (List.filter_append_perm
          (fun b : HbmAccess => config.canMerge l.toLogicalAccess b.toLogicalAccess)
          ((c.queue false).eraseIdx index)).map HbmAccess.toLogicalAccess
        rw [List.map_append] at this
        exact this

/-- The other queue is not touched. -/
theorem takeAccesses_other {c : HbmController} {w : Bool} {index : Nat} {l : HbmAccess} :
    (takeAccesses config c w index l).2.queue (!w) = c.queue (!w) := by
  cases w <;> simp [takeAccesses]

/-- What stays was queued before. -/
theorem takeAccesses_sublist {c : HbmController} {w : Bool} {index : Nat} {l : HbmAccess} :
    ((takeAccesses config c w index l).2.queue w).Sublist ((c.queue w).eraseIdx index) := by
  cases w with
  | true => simp [takeAccesses]
  | false =>
      simp only [takeAccesses, Bool.false_eq_true, if_false, setQueue_queue, if_true]
      unfold mergeFollowers
      split
      · exact .refl _
      · exact List.filter_sublist

/-- Nothing enters a queue when accesses are taken. -/
theorem takeAccesses_mem {c : HbmController} {w w' : Bool} {index : Nat} {l b : HbmAccess}
    (hb : b ∈ (takeAccesses config c w index l).2.queue w') : b ∈ c.queue w' := by
  by_cases h : w' = w
  · subst h
    exact List.mem_of_mem_eraseIdx (takeAccesses_sublist.mem hb)
  · obtain rfl : w' = !w := by cases w <;> cases w' <;> simp_all
    rwa [takeAccesses_other] at hb

/-- What is taken is the leader, and queued accesses that merge with it, under its class. -/
theorem mem_takeAccesses {c : HbmController} {w : Bool} {index : Nat} {l b : HbmAccess}
    (taken : b ∈ (takeAccesses config c w index l).1) :
    b = l ∨ ∃ f ∈ c.queue w, config.canMerge l.toLogicalAccess f.toLogicalAccess = true ∧
      b = { f with accessClass := l.accessClass } := by
  cases w with
  | true => exact .inl (List.mem_singleton.mp taken)
  | false =>
      have follows : b = l ∨ b ∈ (mergeFollowers config c l ((c.queue false).eraseIdx index)).1 :=
        List.mem_cons.mp taken
      refine follows.imp_right fun follows => ?_
      unfold mergeFollowers at follows
      split at follows
      · cases follows
      · obtain ⟨f, hf, rfl⟩ := List.mem_map.mp follows
        obtain ⟨mem, merges⟩ := List.mem_filter.mp hf
        exact ⟨f, List.mem_of_mem_eraseIdx mem, merges, rfl⟩

/-- The accesses a data command takes out are the leader and accesses that merge with it. -/
theorem takeAccesses_cons (c : HbmController) (w : Bool) (index : Nat) (l : HbmAccess) :
    ∃ followers, (takeAccesses config c w index l).1 = l :: followers ∧
      ∀ f ∈ followers, f.accessClass = l.accessClass ∧
        config.canMerge l.toLogicalAccess f.toLogicalAccess = true := by
  cases w with
  | true => exact ⟨[], rfl, fun f hf => absurd hf List.not_mem_nil⟩
  | false =>
      refine ⟨(mergeFollowers config c l ((c.queue false).eraseIdx index)).1, rfl, fun f hf => ?_⟩
      unfold mergeFollowers at hf
      split at hf
      · cases hf
      · obtain ⟨x, hx, rfl⟩ := List.mem_map.mp hf
        exact ⟨rfl, (List.mem_filter.mp hx).2⟩

theorem transferredState_queue {w w' : Bool} {index : Nat} {a : HbmAccess} {r : RecordedCommand}
    {banks : List HbmBankState} {slot : DataSlot} :
    (transferredState config s w index a r banks slot).ctl.queue w' =
      (takeAccesses config s.ctl w index (leader a r.issuedAt)).2.queue w' :=
  takeAccesses_commandIssued.2 w'

/-- The members of a controller after a data command, apart from the queues. -/
theorem transferredState_ctl {w : Bool} {index : Nat} {a : HbmAccess} {r : RecordedCommand}
    {banks : List HbmBankState} {slot : DataSlot} :
    (transferredState config s w index a r banks slot).ctl =
      { ((s.ctl.stampCommand config r).noteSum slot.issuedAt slot.casLatency).noteSum
          slot.dataStart slot.duration with
        readQueue := (transferredState config s w index a r banks slot).ctl.readQueue
        writeQueue := (transferredState config s w index a r banks slot).ctl.writeQueue
        banks := banks
        dataBusReadyAt := s.ctl.dataBusReadyAt.set a.address.pseudoChannel slot.completion
        transfers :=
          ⟨w, a.address.pseudoChannel, a.sizeBytes, slot.issuedAt, slot.dataStart,
            slot.completion⟩ :: s.ctl.transfers } := by
  cases w <;> rfl

theorem takenState_queue {w w' : Bool} {index : Nat} {a : HbmAccess} {r : RecordedCommand}
    {banks : List HbmBankState} :
    (takenState config s w index a r banks).ctl.queue w' =
      (takeAccesses config s.ctl w index (leader a r.issuedAt)).2.queue w' :=
  takeAccesses_commandIssued.2 w'

/-- The members of a controller after a data command without a transfer, apart from
the queues. -/
theorem takenState_ctl {w : Bool} {index : Nat} {a : HbmAccess} {r : RecordedCommand}
    {banks : List HbmBankState} :
    (takenState config s w index a r banks).ctl =
      { (s.ctl.stampCommand config r).noteSum r.issuedAt (casLatency config w) with
        readQueue := (takenState config s w index a r banks).ctl.readQueue
        writeQueue := (takenState config s w index a r banks).ctl.writeQueue
        banks := banks } := by
  cases w <;> rfl

/-- A modified list holds old entries and changed ones. -/
theorem mem_modify {α : Type} {xs : List α} {index : Nat} {f : α → α} {y : α}
    (h : y ∈ xs.modify index f) : ∃ x ∈ xs, y = x ∨ y = f x := by
  obtain ⟨i, hi⟩ := List.mem_iff_getElem?.mp h
  rw [List.getElem?_modify] at hi
  cases hx : xs[i]? with
  | none => simp [hx] at hi
  | some x =>
      refine ⟨x, List.mem_of_getElem? hx, ?_⟩
      simp only [hx, Option.map_eq_map, Option.map_some, Option.some.injEq] at hi
      split at hi
      · exact .inr hi.symm
      · exact .inl hi.symm

/-- Flags of an access do not change what is queued. -/
theorem modify_logical {q : List HbmAccess} {index : Nat} {a a' : HbmAccess}
    (ha : q[index]? = some a) (same : a'.toLogicalAccess = a.toLogicalAccess) :
    (q.modify index fun _ => a').map HbmAccess.toLogicalAccess =
      q.map HbmAccess.toLogicalAccess := by
  refine List.ext_getElem? fun i => ?_
  simp only [List.getElem?_map, List.getElem?_modify]
  by_cases hi : index = i
  · subst hi
    simp [ha, same]
  · simp [hi]

/-- A queued access has an original with the same logical access. -/
theorem mem_modify_logical {q : List HbmAccess} {index : Nat} {a a' b : HbmAccess}
    (ha : q[index]? = some a) (same : a'.toLogicalAccess = a.toLogicalAccess)
    (hb : b ∈ q.modify index fun _ => a') :
    ∃ b' ∈ q, b'.toLogicalAccess = b.toLogicalAccess := by
  have hmem := List.mem_map_of_mem (f := HbmAccess.toLogicalAccess) hb
  rw [modify_logical ha same] at hmem
  simpa using hmem

@[simp] theorem started_logical (a : HbmAccess) (now : Nat) :
    (started a now).toLogicalAccess = a.toLogicalAccess := by
  unfold started startAccess
  split <;> rfl

@[simp] theorem precharged_logical (bank : HbmBankState) (a : HbmAccess) :
    (precharged bank a).toLogicalAccess = a.toLogicalAccess := by
  unfold precharged
  split <;> rfl

@[simp] theorem leader_logical (a : HbmAccess) (now : Nat) :
    (leader a now).toLogicalAccess = a.toLogicalAccess := by
  unfold leader settleClass
  split <;> simp

theorem rowsChanged_rfm {k : HbmCommand} {row index : Nat} {before after : List HbmBankState}
    (h : RowsChanged k row index before after)
    (rfm : ∀ b ∈ before, b.rfmPending = true → config.enableRfm = true) :
    ∀ b ∈ after, b.rfmPending = true → config.enableRfm = true := by
  intro b hb hpending
  obtain ⟨b', hb', -, hrfm, -⟩ := h.mem hb
  exact rfm b' hb' (hrfm ▸ hpending)

theorem settleMaintenance_rfm {c : HbmController} {requested : HbmCommand} {bank : Nat}
    (rfm : ∀ b ∈ c.banks, b.rfmPending = true → config.enableRfm = true) :
    ∀ b ∈ (c.settleMaintenance requested bank).banks,
      b.rfmPending = true → config.enableRfm = true := by
  intro b hb hpending
  unfold settleMaintenance at hb
  split at hb
  · obtain ⟨b', hb', rfl⟩ := List.mem_map.mp hb
    exact rfm b' hb' hpending
  · obtain ⟨b', hb', rfl | rfl⟩ := mem_modify hb
    · exact rfm _ hb' hpending
    · exact rfm b' hb' hpending
  · obtain ⟨b', hb', rfl⟩ := List.mem_map.mp hb
    cases hpending
  · obtain ⟨b', hb', rfl | rfl⟩ := mem_modify hb
    · exact rfm _ hb' hpending
    · cases hpending
  · exact rfm b hb hpending

theorem noteActivation_rfm {b : HbmBankState}
    (rfm : b.rfmPending = true → config.enableRfm = true) :
    (noteActivation config b).rfmPending = true → config.enableRfm = true := by
  unfold noteActivation
  split
  · rename_i h
    intro _
    simpa using (Bool.and_eq_true_iff.mp h).1
  · exact rfm

/-- Without a standard a data command is never an auto-precharge. -/
theorem Demand.noAuto {c : HbmController} {w : Bool} {index : Nat} {a : HbmAccess}
    {k : HbmCommand} (demand : Demand config mapper c now w index a k)
    (h : config.standard = none) : k.isAuto = false := by
  have hauto : config.autoPrecharge = false := by simp [HbmControllerConfig.autoPrecharge, h]
  rcases (plannedCommand_ok demand.planned).cases with rfl | rfl | rfl
  · rfl
  · rfl
  · rw [hauto]
    cases a.op <;> rfl

/-- A data command without auto-precharge keeps what is pending at the banks. -/
theorem dataBanks_flags {k : HbmCommand} {row index : Nat} {banks banks' : List HbmBankState}
    (noAuto : config.standard = none → k.isAuto = false)
    (run : dataBanks config k row index banks = .ok banks') :
    banks'.length = banks.length ∧ ∀ b' ∈ banks', ∃ b ∈ banks,
      b'.refreshPending = b.refreshPending ∧ b'.rfmPending = b.rfmPending ∧
        b'.activationCount = b.activationCount := by
  unfold dataBanks at run
  split at run
  · have rows := transitionBanks_ok noAuto run
    exact ⟨rows.1, fun b' hb' => rows.mem hb'⟩
  · split at run
    · obtain rfl := Except.ok.inj run
      refine ⟨List.length_modify .., fun b' hb' => ?_⟩
      obtain ⟨b, hb, rfl | rfl⟩ := mem_modify hb'
      · exact ⟨_, hb, rfl, rfl, rfl⟩
      · exact ⟨b, hb, rfl, rfl, rfl⟩
    · obtain rfl := Except.ok.inj run
      exact ⟨rfl, fun b hb => ⟨b, hb, rfl, rfl, rfl⟩⟩

end HbmController

section

open HbmController

variable {config : HbmControllerConfig} {mapper : HbmAddressMapper} {s t : ControllerState}
  {now : Nat}

/-! ### The shape of a controller -/

/-- Soundness reads the banks, the buses, the rotation and the logical accesses. -/
theorem Sound.change {c c' : HbmController} (sound : Sound config mapper c)
    (banks : c'.banks.length = c.banks.length)
    (flags : ∀ b ∈ c'.banks, b.rfmPending = true → config.enableRfm = true)
    (buses : c'.dataBusReadyAt.length = c.dataBusReadyAt.length)
    (queue : ∀ w, ∀ a ∈ c'.queue w, ∃ b ∈ c.queue w, b.toLogicalAccess = a.toLogicalAccess)
    (rotation : c'.nextPerBankRefresh = c.nextPerBankRefresh) : Sound config mapper c' where
  banks := banks.trans sound.banks
  buses := buses.trans sound.buses
  mapped w a ha := by
    obtain ⟨b, hb, h⟩ := queue w a ha
    exact h ▸ sound.mapped w b hb
  op w a ha := by
    obtain ⟨b, hb, h⟩ := queue w a ha
    exact h ▸ sound.op w b hb
  rfm := flags
  rotation h := by
    rw [rotation, banks]
    exact sound.rotation fun h' => h (List.eq_nil_of_length_eq_zero (by simp [banks, h']))

/-- Raising a refresh keeps soundness while the rotation stays inside the banks. -/
theorem Sound.raise {c : HbmController} (sound : Sound config mapper c) (due : Nat)
    (bank : config.refreshPolicy = .perBank → c.nextPerBankRefresh < c.banks.length) :
    Sound config mapper (c.raise config due) := by
  unfold HbmController.raise
  cases hpolicy : config.refreshPolicy with
  | allBank => exact sound.change rfl sound.rfm rfl (fun w a ha => ⟨a, ha, rfl⟩) rfl
  | perBank =>
      have hlt := bank hpolicy
      refine ⟨(List.length_modify ..).trans sound.banks, sound.buses, sound.mapped, sound.op,
        fun b hb => ?_, fun _ => ?_⟩
      · obtain ⟨b', hb', rfl | rfl⟩ := mem_modify hb
        · exact sound.rfm _ hb'
        · exact sound.rfm b' hb'
      · simpa [RefreshPolicy.usesAllBankRefresh] using Nat.mod_lt _ (Nat.zero_lt_of_lt hlt)

/-- A maintenance command keeps soundness. -/
theorem Sound.maintained {candidate : MaintenanceCandidate} {address : HbmAddress}
    {banks : List HbmBankState} {time : Nat} (sound : Sound config mapper s.ctl)
    (rows : RowsChanged candidate.command 0 candidate.localBank s.ctl.banks banks) :
    Sound config mapper (maintained config s candidate address banks time).ctl := by
  have queue : ∀ w, ∀ a ∈ (HbmController.maintained config s candidate address banks time).ctl.queue
      w, ∃ b ∈ s.ctl.queue w, b.toLogicalAccess = a.toLogicalAccess :=
    fun w a ha => ⟨a, by simpa using ha, rfl⟩
  cases hfinal : candidate.finalCommand with
  | true =>
      rw [maintained_final hfinal] at queue ⊢
      refine sound.change ?_ (settleMaintenance_rfm (rowsChanged_rfm rows sound.rfm)) ?_ queue ?_
      · exact (settleMaintenance_banks _ _ _).trans rows.1
      · unfold settleMaintenance
        split <;> rfl
      · unfold settleMaintenance
        split <;> rfl
  | false =>
      rw [maintained_prerequisite hfinal] at queue ⊢
      exact sound.change rows.1 (rowsChanged_rfm rows sound.rfm) rfl queue rfl

/-- A row command keeps soundness. -/
theorem Sound.rowStep (sound : Sound config mapper s.ctl)
    (step : RowStep config mapper now s t) : Sound config mapper t.ctl := by
  cases step with
  | @activate w index bankIndex a banks demand _ hbanks =>
      have rows := transitionBanks_ok (fun _ => rfl) hbanks
      refine sound.change ?_ ?_ ?_ ?_ ?_
      · rw [activatedState_ctl]
        exact (List.length_modify ..).trans rows.1
      · rw [activatedState_ctl]
        intro b hb
        obtain ⟨b', hb', rfl | rfl⟩ := mem_modify hb
        · exact rowsChanged_rfm rows sound.rfm _ hb'
        · exact noteActivation_rfm (rowsChanged_rfm rows sound.rfm _ hb')
      · rw [activatedState_ctl]
        rfl
      · intro w' b hb
        rw [activatedState_queue] at hb
        split at hb
        · subst w'
          exact mem_modify_logical demand.access (by simp) hb
        · exact ⟨b, hb, rfl⟩
      · rw [activatedState_ctl]
        rfl
  | @precharge w index bankIndex a bank banks demand _ _ hbanks =>
      have rows := transitionBanks_ok (fun _ => rfl) hbanks
      refine sound.change ?_ ?_ ?_ ?_ ?_
      · rw [prechargedState_ctl]
        exact rows.1
      · rw [prechargedState_ctl]
        exact rowsChanged_rfm rows sound.rfm
      · rw [prechargedState_ctl]
        rfl
      · intro w' b hb
        rw [prechargedState_queue] at hb
        split at hb
        · subst w'
          exact mem_modify_logical demand.access (by simp) hb
        · exact ⟨b, hb, rfl⟩
      · rw [prechargedState_ctl]
        rfl

/-- A data command keeps soundness. -/
theorem Sound.dataStep {phys : PhysicalAccess} (sound : Sound config mapper s.ctl)
    (step : DataStep config mapper now s phys t) : Sound config mapper t.ctl := by
  cases step with
  | @mk w index bankIndex busReady duration a k priority banks slot demand data _ hbanks bus _
      hslot =>
      have flags := dataBanks_flags demand.noAuto hbanks
      refine sound.change ?_ ?_ ?_ ?_ ?_
      · rw [transferredState_ctl]
        exact flags.1
      · rw [transferredState_ctl]
        intro b' hb' hpending
        obtain ⟨b, hb, -, hrfm, -⟩ := flags.2 b' hb'
        exact sound.rfm b hb (hrfm ▸ hpending)
      · rw [transferredState_ctl]
        exact List.length_set
      · intro w' b hb
        rw [transferredState_queue] at hb
        exact ⟨b, takeAccesses_mem hb, rfl⟩
      · rw [transferredState_ctl]
        rfl

/-- So does a transfer that is lost to an exception. -/
theorem Sound.lostStep {lost : List LogicalAccess} (sound : Sound config mapper s.ctl)
    (step : LostStep config mapper now s lost t) : Sound config mapper t.ctl := by
  cases step with
  | mk demand data _ hbanks =>
      have flags := dataBanks_flags demand.noAuto hbanks
      refine sound.change ?_ ?_ ?_ ?_ ?_
      · rw [takenState_ctl]
        exact flags.1
      · rw [takenState_ctl]
        intro b' hb' hpending
        obtain ⟨b, hb, -, hrfm, -⟩ := flags.2 b' hb'
        exact sound.rfm b hb (hrfm ▸ hpending)
      · rw [takenState_ctl]
        rfl
      · intro w' b hb
        rw [takenState_queue] at hb
        exact ⟨b, takeAccesses_mem hb, rfl⟩
      · rw [takenState_ctl]
        rfl

/-- Every step of the controller keeps soundness. -/
theorem Sound.step (sound : Sound config mapper s.ctl)
    (step : ControllerStep config mapper now s t) : Sound config mapper t.ctl := by
  cases step with
  | retouch h => exact sound.retouched h
  | raise due bank => exact sound.raise due bank
  | advanceDue base => exact sound.change rfl sound.rfm rfl (fun w a ha => ⟨a, ha, rfl⟩) rfl
  | maintain h =>
      cases h with
      | mk plan _ _ _ _ _ hbanks => exact sound.maintained (plan.rows hbanks)
  | row h => exact sound.rowStep h

end

end HbmSim
