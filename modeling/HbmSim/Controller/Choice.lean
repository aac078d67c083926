import HbmSim.Controller.Planning

/-!
What the two choices of the controller answer: `choose_maintenance` picks the
next command of a pending refresh or RFM, `choose_next` the next command of a
queued access.
-/

namespace HbmSim

open HbmSim.Lib

/-- What `validate` and the constructor settle for a channel. -/
structure Wiring (config : HbmControllerConfig) (mapper : HbmAddressMapper) : Prop where
  rfm : config.enableRfm = true →
    ∃ s, config.standard = some s ∧ s.supports .rfmPerBank = true
  rate : 0 < config.dataRate.bytes ∧ 0 < config.dataRate.interval
  firstBank : config.firstFlatBank < 2 ^ 32
  pseudoChannels : ∀ byte a, mapper.map byte = .ok a → a.pseudoChannel < config.pseudoChannelCount

/-- The address is the image of a byte address, on this channel. -/
def Mapped (config : HbmControllerConfig) (mapper : HbmAddressMapper) (a : HbmAddress) : Prop :=
  a.flatChannel = config.channel ∧ ∃ byte, mapper.map byte = .ok a

/-- The bank indices of the channel and of the mapper agree. It fails only when a
product of topology dimensions does not fit into 32 bits. -/
structure Regular (config : HbmControllerConfig) (mapper : HbmAddressMapper) : Prop where
  banks : 0 < config.bankCount
  bankAddress : ∀ index < config.bankCount,
    ∃ a, mapper.bankAddress (u32 (config.firstFlatBank + index)) = .ok a
  localBank : ∀ a, Mapped config mapper a →
    ∃ index < config.bankCount, HbmController.localBank config a.flatBank = .ok index

/-- The exceptions a correct controller may throw: a time beyond 64 bits, and an
index outside a topology that is not regular. -/
def Excused (config : HbmControllerConfig) (mapper : HbmAddressMapper) (e : HbmError) : Prop :=
  e.isOverflow = true ∨ (e.isRange = true ∧ ¬ Regular config mapper)

/-- The channel has a bank, and every bank of it is one of the mapper's. -/
structure Addressable (config : HbmControllerConfig) (mapper : HbmAddressMapper) : Prop where
  banks : 0 < config.bankCount
  bankAddress : ∀ index < config.bankCount,
    ∃ a, mapper.bankAddress (u32 (config.firstFlatBank + index)) = .ok a

/-- The exceptions maintenance may throw. It asks for the addresses of banks only. -/
def Unplaced (config : HbmControllerConfig) (mapper : HbmAddressMapper) (e : HbmError) : Prop :=
  e.isOverflow = true ∨ (e.isRange = true ∧ ¬ Addressable config mapper)

/-- Where the banks are regular they have addresses. -/
theorem Regular.addressable {config : HbmControllerConfig} {mapper : HbmAddressMapper}
    (regular : Regular config mapper) : Addressable config mapper :=
  ⟨regular.banks, regular.bankAddress⟩

/-- A bank without an address excuses an exception. -/
theorem Unplaced.excused {config : HbmControllerConfig} {mapper : HbmAddressMapper} {e : HbmError}
    (h : Unplaced config mapper e) : Excused config mapper e :=
  h.imp id fun ⟨range, missing⟩ => ⟨range, mt Regular.addressable missing⟩

/-- The shape of a controller's members. -/
structure Sound (config : HbmControllerConfig) (mapper : HbmAddressMapper)
    (c : HbmController) : Prop where
  banks : c.banks.length = config.bankCount
  buses : c.dataBusReadyAt.length = config.pseudoChannelCount
  mapped : ∀ w, ∀ a ∈ c.queue w, Mapped config mapper a.address
  op : ∀ w, ∀ a ∈ c.queue w, a.op = if w then .write else .read
  rfm : ∀ b ∈ c.banks, b.rfmPending = true → config.enableRfm = true
  rotation : c.banks ≠ [] → c.nextPerBankRefresh < c.banks.length

/-- No maintenance is pending. -/
def HbmController.Quiet (c : HbmController) : Prop :=
  c.refreshPending = false ∧ ∀ b ∈ c.banks, b.rfmPending = false ∧ b.refreshPending = false

instance (c : HbmController) : Decidable c.Quiet := inferInstanceAs (Decidable (_ ∧ _))

namespace HbmController

variable {config : HbmControllerConfig} {mapper : HbmAddressMapper} {c : HbmController}

/-- A controller is quiet if no bank requests maintenance and no refresh is pending. -/
theorem quiet_iff_requested :
    c.Quiet ↔ c.refreshPending = false ∧ ∀ b ∈ c.banks, requestedMaintenance b = none := by
  unfold Quiet requestedMaintenance
  refine and_congr_right fun _ => forall₂_congr fun b _ => ?_
  cases b.rfmPending <;> cases b.refreshPending <;> simp

/-- A quiet controller owes no refresh. -/
theorem Quiet.not_refreshOwed (h : c.Quiet) : c.refreshOwed = false := by
  unfold refreshOwed
  simp only [h.1, Bool.false_or, List.any_eq_false]
  intro b hb
  simp [(h.2 b hb).2]

/-! ### Maintenance -/

/-- A candidate for maintenance, planned from the pending flags. -/
inductive MaintenancePlan (config : HbmControllerConfig) (mapper : HbmAddressMapper)
    (c : HbmController) (now : Nat) : MaintenanceCandidate → Prop
  | allBank {address : HbmAddress} {ready : Nat} (pending : c.refreshPending = true)
      (banks : c.banks ≠ [])
      (haddress : mapper.bankAddress (u32 (config.firstFlatBank + 0)) = .ok address)
      (hready : earliestCommand config mapper c
        (if c.anyOpen then .preAll else .refreshAllBank) address now = .ok ready) :
      MaintenancePlan config mapper c now
        ⟨.refreshAllBank, if c.anyOpen then .preAll else .refreshAllBank, 0, ready, !c.anyOpen⟩
  | perBank {address : HbmAddress} {ready index : Nat} {bank : HbmBankState}
      {requested : HbmCommand} (pending : c.refreshPending = false)
      (hbank : c.banks[index]? = some bank)
      (hrequested : requestedMaintenance bank = some requested)
      (haddress : mapper.bankAddress (u32 (config.firstFlatBank + index)) = .ok address)
      (hready : earliestCommand config mapper c
        (if bank.openRow.isSome then .preBank else requested) address now = .ok ready) :
      MaintenancePlan config mapper c now
        ⟨requested, if bank.openRow.isSome then .preBank else requested, index, ready,
          bank.openRow.isNone⟩

/-- A bank requests RFM first, then its refresh. -/
theorem requestedMaintenance_cases {bank : HbmBankState} {requested : HbmCommand}
    (h : requestedMaintenance bank = some requested) :
    (requested = .rfmPerBank ∧ bank.rfmPending = true) ∨
      (requested = .refreshPerBank ∧ bank.rfmPending = false ∧ bank.refreshPending = true) := by
  unfold requestedMaintenance at h
  cases hrfm : bank.rfmPending <;> cases href : bank.refreshPending <;> simp_all

/-- What is requested is supported by the device. -/
theorem requested_supported (wiring : Wiring config mapper) (sound : Sound config mapper c)
    {index : Nat} {bank : HbmBankState} {requested : HbmCommand}
    (hbank : c.banks[index]? = some bank)
    (hrequested : requestedMaintenance bank = some requested) :
    (requested = .refreshPerBank ∨ requested = .rfmPerBank) ∧
      ∀ s, config.standard = some s → s.supports requested = true := by
  rcases requestedMaintenance_cases hrequested with ⟨rfl, hrfm⟩ | ⟨rfl, -⟩
  · refine ⟨.inr rfl, fun s hs => ?_⟩
    obtain ⟨s', hs', hsup⟩ := wiring.rfm (sound.rfm bank (List.mem_of_getElem? hbank) hrfm)
    rw [hs] at hs'
    cases hs'
    exact hsup
  · exact ⟨.inl rfl, fun s _ => by cases s <;> rfl⟩

/-- The candidate of a bank is a plan. -/
theorem bankCandidate_ok (wiring : Wiring config mapper) (sound : Sound config mapper c)
    {now index : Nat} {anyOpen : Bool} {bank : HbmBankState} {requested : HbmCommand}
    {candidate : MaintenanceCandidate} (pending : c.refreshPending = false)
    (hbank : c.banks[index]? = some bank)
    (hrequested : requestedMaintenance bank = some requested)
    (run : bankCandidate config mapper c now anyOpen index bank requested = .ok candidate) :
    MaintenancePlan config mapper c now candidate := by
  obtain ⟨hkind, hsup⟩ := requested_supported wiring sound hbank hrequested
  simp only [bankCandidate, bind_eq_ok, HbmCommandPlanner.nextDecision_perBank hkind hsup] at run
  obtain ⟨address, haddress, decision, hdecision, ready, hready, hcandidate⟩ := run
  cases hdecision
  cases hcandidate
  have plan : MaintenancePlan config mapper c now _ := .perBank pending hbank hrequested haddress
    (by cases hrow : bank.openRow <;> simpa [hrow] using hready)
  cases hrow : bank.openRow <;> simpa [hrow] using plan

/-- The earlier of two is one of them. -/
theorem earlierCandidate_cases (earliest : Option MaintenanceCandidate)
    (candidate : MaintenanceCandidate) :
    earlierCandidate earliest candidate = candidate ∨
      earliest = some (earlierCandidate earliest candidate) := by
  cases earliest with
  | none => exact .inl rfl
  | some best =>
      simp only [earlierCandidate]
      split
      · exact .inl rfl
      · exact .inr rfl

/-- The loop answers with the candidate it started from or one of a waiting bank,
and with nothing only if no bank waits. -/
theorem chooseBankMaintenance_ok (wiring : Wiring config mapper) (sound : Sound config mapper c)
    {now : Nat} {anyOpen : Bool} (pending : c.refreshPending = false)
    {result : Option MaintenanceCandidate} :
    ∀ {banks : List HbmBankState} {index : Nat} {earliest : Option MaintenanceCandidate},
      c.banks.drop index = banks →
      (∀ candidate, earliest = some candidate → MaintenancePlan config mapper c now candidate) →
      chooseBankMaintenance config mapper c now anyOpen index banks earliest = .ok result →
      match result with
      | some candidate => MaintenancePlan config mapper c now candidate
      | none => earliest = none ∧ ∀ b ∈ banks, requestedMaintenance b = none
  | [], index, earliest, _, hearliest, run => by
      obtain rfl : earliest = result := Except.ok.inj run
      cases earliest with
      | none => simp
      | some candidate => exact hearliest candidate rfl
  | bank :: rest, index, earliest, hdrop, hearliest, run => by
      have hbank : c.banks[index]? = some bank := by
        rw [← List.head?_drop, hdrop, List.head?_cons]
      have hrest : c.banks.drop (index + 1) = rest := by
        rw [← List.tail_drop, hdrop, List.tail_cons]
      unfold chooseBankMaintenance at run
      split at run
      · rename_i hnone
        have spec := chooseBankMaintenance_ok wiring sound pending hrest hearliest run
        cases result with
        | some candidate => exact spec
        | none => exact ⟨spec.1, by simpa [hnone] using spec.2⟩
      · rename_i requested hrequested
        obtain ⟨candidate, hcandidate, run⟩ := bind_eq_ok.mp run
        have plan := bankCandidate_ok wiring sound pending hbank hrequested hcandidate
        have hbest : ∀ best, some (earlierCandidate earliest candidate) = some best →
            MaintenancePlan config mapper c now best := by
          rintro best ⟨⟩
          rcases earlierCandidate_cases earliest candidate with h | h
          · rw [h]
            exact plan
          · exact hearliest _ h
        have spec := chooseBankMaintenance_ok wiring sound pending hrest hbest run
        cases result with
        | some candidate => exact spec
        | none => exact nomatch spec.1

/-- The maintenance chosen is planned. -/
theorem chooseMaintenance_some (wiring : Wiring config mapper) (sound : Sound config mapper c)
    {now : Nat} {candidate : MaintenanceCandidate}
    (run : chooseMaintenance config mapper c now = .ok (some candidate)) :
    MaintenancePlan config mapper c now candidate := by
  unfold chooseMaintenance at run
  cases hpending : c.refreshPending with
  | true =>
      simp only [hpending, if_true] at run
      split at run
      · cases run
      · rename_i front rest hbanks
        simp only [RefreshPolicy.allBankCommand, HbmCommandPlanner.nextDecision_refreshAllBank,
          bind_eq_ok] at run
        obtain ⟨decision, hdecision, address, haddress, ready, hready, hcandidate⟩ := run
        cases hdecision
        cases hcandidate
        have haddress' : mapper.bankAddress (u32 (config.firstFlatBank + 0)) = .ok address := by
          rwa [Nat.add_zero, u32_of_lt wiring.firstBank]
        have plan : MaintenancePlan config mapper c now _ := .allBank hpending
          (by simp [hbanks]) haddress' (by cases hopen : c.anyOpen <;> simpa [hopen] using hready)
        cases hopen : c.anyOpen <;> simpa [hopen] using plan
  | false =>
      simp only [hpending, Bool.false_eq_true, if_false] at run
      exact chooseBankMaintenance_ok wiring sound hpending List.drop_zero (by simp) run

/-- If none is chosen the controller is quiet. -/
theorem chooseMaintenance_none (wiring : Wiring config mapper) (sound : Sound config mapper c)
    {now : Nat} (run : chooseMaintenance config mapper c now = .ok none) : c.Quiet := by
  rw [quiet_iff_requested]
  unfold chooseMaintenance at run
  cases hpending : c.refreshPending with
  | true =>
      simp only [hpending, if_true] at run
      split at run
      · cases run
      · simp only [bind_eq_ok] at run
        obtain ⟨_, _, _, _, _, _, hcandidate⟩ := run
        cases hcandidate
  | false =>
      simp only [hpending, Bool.false_eq_true, if_false] at run
      exact ⟨rfl, (chooseBankMaintenance_ok wiring sound hpending List.drop_zero (by simp) run).2⟩

/-- A command without a transition is never asked about. -/
theorem earliestCommand_unplaced {now : Nat} {command : HbmCommand} {address : HbmAddress}
    {e : HbmError} (sup : supported config command = true)
    (hbanks : c.banks.length = config.bankCount)
    (run : earliestCommand config mapper c command address now = .error e) :
    Unplaced config mapper e := by
  rcases earliestCommand_error run with h | ⟨hrange, index, hindex, haddress⟩ | ⟨s, hs, h⟩
  · exact .inl h
  · refine .inr ⟨hrange, fun addressable => ?_⟩
    obtain ⟨a, ha⟩ := addressable.bankAddress index (hbanks ▸ hindex)
    rw [ha] at haddress
    cases haddress
  · have hsup : s.supports command = true := by simpa [supported, hs] using sup
    rw [HbmStandard.transitionFor_of_supports hsup] at h
    cases h

/-- A bank of the controller lacks an address only outside the topology. -/
theorem bankAddress_unplaced {index : Nat} {e : HbmError} (hindex : index < config.bankCount)
    (run : mapper.bankAddress (u32 (config.firstFlatBank + index)) = .error e) :
    Unplaced config mapper e := by
  refine .inr ⟨mapper.bankAddress_error run, fun addressable => ?_⟩
  obtain ⟨a, ha⟩ := addressable.bankAddress index hindex
  rw [ha] at run
  cases run

/-- A command that all standards have is supported. -/
theorem supported_of_common {command : HbmCommand}
    (h : HbmStandard.commonSupport command = true) : supported config command = true := by
  unfold supported
  split
  · rfl
  · rename_i s _
    cases s <;> simp [HbmStandard.supports, h]

/-- The scan fails only for a bank without an address. -/
theorem chooseBankMaintenance_error (wiring : Wiring config mapper)
    (sound : Sound config mapper c) {now : Nat} {anyOpen : Bool} {e : HbmError} :
    ∀ {banks : List HbmBankState} {index : Nat} {earliest : Option MaintenanceCandidate},
      c.banks.drop index = banks →
      chooseBankMaintenance config mapper c now anyOpen index banks earliest = .error e →
      Unplaced config mapper e
  | [], _, _, _, run => nomatch run
  | bank :: rest, index, earliest, hdrop, run => by
      have hbank : c.banks[index]? = some bank := by
        rw [← List.head?_drop, hdrop, List.head?_cons]
      have hrest : c.banks.drop (index + 1) = rest := by
        rw [← List.tail_drop, hdrop, List.tail_cons]
      unfold chooseBankMaintenance at run
      split at run
      · exact chooseBankMaintenance_error wiring sound hrest run
      · rename_i requested hrequested
        rcases bind_eq_error.mp run with hcandidate | ⟨_, _, run⟩
        · obtain ⟨hkind, hsup⟩ := requested_supported wiring sound hbank hrequested
          simp only [bankCandidate, bind_eq_error,
            HbmCommandPlanner.nextDecision_perBank hkind hsup] at hcandidate
          rcases hcandidate with haddress | ⟨address, haddress, hdecision | ⟨decision, hdecision,
            hready | ⟨ready, hready, hpure⟩⟩⟩
          · exact bankAddress_unplaced (sound.banks ▸ (List.getElem?_eq_some_iff.mp hbank).1) haddress
          · cases hdecision
          · cases hdecision
            refine earliestCommand_unplaced ?_ sound.banks hready
            split
            · exact supported_of_common rfl
            · unfold supported
              split
              · rfl
              · rename_i s hs
                exact hsup s hs
          · cases hpure
        · exact chooseBankMaintenance_error wiring sound hrest run

/-- Planning maintenance fails only for a bank without an address. -/
theorem chooseMaintenance_error (wiring : Wiring config mapper) (sound : Sound config mapper c)
    {now : Nat} {e : HbmError} (run : chooseMaintenance config mapper c now = .error e) :
    Unplaced config mapper e := by
  unfold chooseMaintenance at run
  cases hpending : c.refreshPending with
  | true =>
      simp only [hpending, if_true] at run
      split at run
      · rename_i hbanks
        cases run
        refine .inr ⟨rfl, fun addressable => ?_⟩
        have := addressable.banks
        rw [← sound.banks, hbanks] at this
        exact Nat.lt_irrefl 0 this
      · rename_i front rest hbanks
        have hpos : 0 < config.bankCount := by simp [← sound.banks, hbanks]
        simp only [RefreshPolicy.allBankCommand, HbmCommandPlanner.nextDecision_refreshAllBank,
          bind_eq_error] at run
        rcases run with hdecision | ⟨decision, hdecision, haddress | ⟨address, haddress, hready |
          ⟨ready, hready, hpure⟩⟩⟩
        · cases hdecision
        · refine bankAddress_unplaced hpos ?_
          rwa [Nat.add_zero, u32_of_lt wiring.firstBank]
        · cases hdecision
          refine earliestCommand_unplaced ?_ sound.banks hready
          split <;> exact supported_of_common rfl
        · cases hpure
  | false =>
      simp only [hpending, Bool.false_eq_true, if_false] at run
      exact chooseBankMaintenance_error wiring sound List.drop_zero run

end HbmController

end HbmSim
