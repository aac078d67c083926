import HbmSim.Controller.Drive
import HbmSim.Lib.Throw

/-!
What the timing queries of the controller answer.

The earliest time of a command is the maximum of the current time and a
threshold that the history and the bus clocks alone decide; an answer is never
before any bound of the constraint table, and a query fails only because a bound
does not fit into 64 bits or a bank is outside the topology.
-/

namespace HbmSim

open HbmSim.Lib

/-- The error reports an index outside a container or the topology. -/
def HbmError.isRange : HbmError → Bool
  | .outOfRange _ | .undefined => true
  | _ => false

/-! ### The timing engine -/

namespace HbmTimingEngine

variable {constraints : List TimingConstraint} {history : CommandHistory} {command : HbmCommand}
  {address : HbmAddress}

/-- A constraint commutes with a later start. -/
theorem constraintStep_max (n earliest : Nat) (constraint : TimingConstraint) :
    constraintStep history command address (max n earliest) constraint =
      max n <$> constraintStep history command address earliest constraint := by
  unfold constraintStep
  split
  · rfl
  · split
    · rfl
    · split
      · rfl
      · simp only [map_ok, Nat.max_assoc]

/-- The current time only enters through a maximum. -/
theorem earliestIssue_eq_max (now : Nat) :
    earliestIssue constraints history command address now =
      max now <$> earliestIssue constraints history command address 0 := by
  unfold earliestIssue
  rw [← foldlM_map (constraintStep_max now), Nat.max_zero]

/-- The command, issued at `time`, keeps every bound of the table that applies to
it at `address`. -/
def Meets (constraints : List TimingConstraint) (history : CommandHistory)
    (command : HbmCommand) (address : HbmAddress) (time : Nat) : Prop :=
  ∀ c ∈ constraints, c.following = timingCommand command →
    ∀ earlier, (history (resourceKey c.scope address) c.preceding)[c.distance - 1]? =
      some earlier → earlier + c.delay ≤ time

theorem Meets.mono {time time' : Nat} (h : Meets constraints history command address time)
    (hle : time ≤ time') : Meets constraints history command address time' :=
  fun c hc follows earlier hearlier => Nat.le_trans (h c hc follows earlier hearlier) hle

/-- The bound of a constraint meets it, and is not before the start. -/
theorem constraintStep_ok {earliest result : Nat} {c : TimingConstraint}
    (run : constraintStep history command address earliest c = .ok result) :
    earliest ≤ result ∧ Meets [c] history command address result := by
  unfold constraintStep at run
  split at run
  · rename_i hfollows
    cases run
    exact ⟨Nat.le_refl _, fun c' hc' follows => by simp_all⟩
  · split at run
    · rename_i hnone
      cases run
      exact ⟨Nat.le_refl _, fun c' hc' _ earlier hearlier => by simp_all⟩
    · rename_i earlier hsome
      split at run
      · cases run
      · cases run
        refine ⟨Nat.le_max_left _ _, fun c' hc' _ earlier' hearlier => ?_⟩
        obtain rfl := List.mem_singleton.mp hc'
        obtain rfl : earlier' = earlier := by simpa [hsome] using hearlier.symm
        exact Nat.le_max_right _ _

/-- An answer is not before the current time nor before any bound. -/
theorem earliestIssue_ok {now result : Nat}
    (run : earliestIssue constraints history command address now = .ok result) :
    now ≤ result ∧ Meets constraints history command address result := by
  refine foldlM_ok (P := fun done result =>
    now ≤ result ∧ Meets done history command address result) ?_ ?_ run
  · rintro done c earliest earliest' ⟨hnow, hmeets⟩ step
    have hstep := constraintStep_ok step
    refine ⟨Nat.le_trans hnow hstep.1, fun c' hc' => ?_⟩
    rcases List.mem_append.mp hc' with hc' | hc'
    · exact (hmeets.mono hstep.1) c' hc'
    · exact hstep.2 c' hc'
  · exact ⟨Nat.le_refl _, fun c hc => by simp at hc⟩

/-- A query fails only on a bound beyond 64 bits. -/
theorem earliestIssue_error {now : Nat} {e : HbmError}
    (run : earliestIssue constraints history command address now = .error e) :
    e.isOverflow = true := by
  obtain ⟨c, _, earliest, step⟩ := foldlM_error run
  unfold constraintStep at step
  split at step
  · cases step
  · split at step
    · cases step
    · split at step <;> cases step
      rfl

end HbmTimingEngine

/-! ### Addresses -/

/-- A bank has no address only out of range. -/
theorem HbmAddressMapper.bankAddress_error {m : HbmAddressMapper} {flatBank : Nat} {e : HbmError}
    (run : m.bankAddress flatBank = .error e) : e.isRange = true := by
  unfold bankAddress at run
  simp only at run
  split at run <;> cases run
  rfl

/-- The element at an index. -/
theorem vectorAt_ok {α : Type} {xs : List α} {index : Nat} {x : α} :
    vectorAt xs index = .ok x ↔ xs[index]? = some x := by
  unfold vectorAt
  split <;> simp_all

/-- There is none at or past the length. -/
theorem vectorAt_error {α : Type} {xs : List α} {index : Nat} {e : HbmError}
    (run : vectorAt xs index = .error e) : xs.length ≤ index ∧ e.isRange = true := by
  unfold vectorAt at run
  split at run <;> cases run
  exact ⟨by simp_all, rfl⟩

namespace HbmController

variable {config : HbmControllerConfig} {mapper : HbmAddressMapper} {c : HbmController}

/-- A local bank is the flat bank less the controller's first. -/
theorem localBank_ok {flatBank index : Nat} (run : localBank config flatBank = .ok index) :
    config.firstFlatBank ≤ flatBank ∧ flatBank < u32 (config.firstFlatBank + config.bankCount) ∧
      index = flatBank - config.firstFlatBank := by
  unfold localBank at run
  split at run <;> cases run
  exact ⟨by omega, by omega, rfl⟩

/-- There is none out of the controller's range. -/
theorem localBank_error {flatBank : Nat} {e : HbmError}
    (run : localBank config flatBank = .error e) : e.isRange = true := by
  unfold localBank at run
  split at run <;> cases run
  rfl

/-! ### The earliest time of a command -/

/-- The scan over the banks commutes with a later start. -/
theorem bankStep_max (command : HbmCommand) (now ready index : Nat) :
    bankStep config mapper c command now (max now ready) index =
      max now <$> bankStep config mapper c command 0 ready index := by
  unfold bankStep
  cases mapper.bankAddress (u32 (config.firstFlatBank + index)) with
  | error e => rfl
  | ok address =>
      simp only [ok_bind]
      rw [HbmTimingEngine.earliestIssue_eq_max now]
      cases HbmTimingEngine.earliestIssue config.timing.constraints c.history command address 0 with
      | error e => rfl
      | ok bankReady =>
          simp only [map_ok, ok_bind, pure, Except.pure, Except.ok.injEq]
          omega

/-- The earliest time over all banks is the start or their latest bound. -/
theorem earliestAllBank_eq_max (command : HbmCommand) (now : Nat) :
    earliestAllBank config mapper c command now =
      max now <$> earliestAllBank config mapper c command 0 := by
  unfold earliestAllBank
  rw [← foldlM_map (bankStep_max command now), Nat.max_zero]

/-- An all-bank answer is an answer for every bank of the channel. -/
theorem earliestAllBank_ok {command : HbmCommand} {now result : Nat}
    (run : earliestAllBank config mapper c command now = .ok result) :
    now ≤ result ∧ ∀ index < c.banks.length, ∃ address,
      mapper.bankAddress (u32 (config.firstFlatBank + index)) = .ok address ∧
        HbmTimingEngine.Meets config.timing.constraints c.history command address result := by
  have spec := foldlM_ok (P := fun done result => now ≤ result ∧ ∀ index ∈ done, ∃ address,
    mapper.bankAddress (u32 (config.firstFlatBank + index)) = .ok address ∧
      HbmTimingEngine.Meets config.timing.constraints c.history command address result)
    ?_ ⟨Nat.le_refl _, by simp⟩ run
  · exact ⟨spec.1, fun index hindex => spec.2 index (by simpa using hindex)⟩
  · rintro done index ready ready' ⟨hnow, hbanks⟩ step
    simp only [bankStep, bind_eq_ok] at step
    obtain ⟨address, haddress, bankReady, hready, hmax⟩ := step
    obtain rfl : max ready bankReady = ready' := by simpa [pure, Except.pure] using hmax
    refine ⟨by omega, fun index' hindex' => ?_⟩
    rcases List.mem_append.mp hindex' with hindex' | hindex'
    · obtain ⟨address', haddress', meets⟩ := hbanks index' hindex'
      exact ⟨address', haddress', meets.mono (Nat.le_max_left _ _)⟩
    · obtain rfl := List.mem_singleton.mp hindex'
      exact ⟨address, haddress,
        (HbmTimingEngine.earliestIssue_ok hready).2.mono (Nat.le_max_right _ _)⟩

/-- It fails by overflow or for a bank without an address. -/
theorem earliestAllBank_error {command : HbmCommand} {now : Nat} {e : HbmError}
    (run : earliestAllBank config mapper c command now = .error e) :
    e.isOverflow = true ∨ e.isRange = true ∧ ∃ index < c.banks.length,
      mapper.bankAddress (u32 (config.firstFlatBank + index)) = .error e := by
  obtain ⟨index, hindex, ready, step⟩ := foldlM_error run
  simp only [bankStep, bind_eq_error] at step
  rcases step with haddress | ⟨address, haddress, hready | ⟨_, _, hpure⟩⟩
  · exact .inr ⟨mapper.bankAddress_error haddress, index, by simpa using hindex, haddress⟩
  · exact .inl (HbmTimingEngine.earliestIssue_error hready)
  · cases hpure

/-- The current time only enters through a maximum. -/
theorem earliestCommand_eq_max (command : HbmCommand) (address : HbmAddress) (now : Nat) :
    earliestCommand config mapper c command address now =
      max now <$> earliestCommand config mapper c command address 0 := by
  unfold earliestCommand
  have assoc : ∀ ready : Except HbmError Nat,
      ((max now <$> ready) >>= fun t => (pure (max t (c.commandBusReady config command)) :
        Except HbmError Nat)) =
        max now <$> (ready >>= fun t => pure (max t (c.commandBusReady config command))) := by
    intro ready
    cases ready with
    | error e => rfl
    | ok t => simp only [map_ok, ok_bind, pure, Except.pure, Nat.max_assoc]
  cases checksAllBanks config command with
  | error e => rfl
  | ok all =>
      simp only [ok_bind]
      cases all with
      | true =>
          rw [earliestAllBank_eq_max command now]
          exact assoc _
      | false =>
          rw [HbmTimingEngine.earliestIssue_eq_max now]
          exact assoc _

/-- The command, issued at `time`, keeps every bound that applies to it: at every
bank for an all-bank command of a standard, at its own address otherwise. -/
def Permits (config : HbmControllerConfig) (mapper : HbmAddressMapper) (c : HbmController)
    (command : HbmCommand) (address : HbmAddress) (time : Nat) : Prop :=
  match checksAllBanks config command with
  | .ok true => ∀ index < c.banks.length, ∃ address,
      mapper.bankAddress (u32 (config.firstFlatBank + index)) = .ok address ∧
        HbmTimingEngine.Meets config.timing.constraints c.history command address time
  | _ => HbmTimingEngine.Meets config.timing.constraints c.history command address time

theorem Permits.mono {command : HbmCommand} {address : HbmAddress} {time time' : Nat}
    (h : Permits config mapper c command address time) (hle : time ≤ time') :
    Permits config mapper c command address time' := by
  unfold Permits at *
  split at h
  · intro index hindex
    obtain ⟨address', haddress, meets⟩ := h index hindex
    exact ⟨address', haddress, meets.mono hle⟩
  · exact h.mono hle

/-- An answer is not before the current time, the bus, nor any bound. -/
theorem earliestCommand_ok {command : HbmCommand} {address : HbmAddress} {now result : Nat}
    (run : earliestCommand config mapper c command address now = .ok result) :
    now ≤ result ∧ c.commandBusReady config command ≤ result ∧
      Permits config mapper c command address result := by
  simp only [earliestCommand, bind_eq_ok] at run
  obtain ⟨all, hall, run⟩ := run
  unfold Permits
  cases all with
  | true =>
      obtain ⟨ready, hready, hmax⟩ := bind_eq_ok.mp run
      obtain rfl := Except.ok.inj hmax
      have spec := earliestAllBank_ok hready
      refine ⟨Nat.le_trans spec.1 (Nat.le_max_left _ _), Nat.le_max_right _ _, ?_⟩
      rw [hall]
      intro index hindex
      obtain ⟨address', haddress, meets⟩ := spec.2 index hindex
      exact ⟨address', haddress, meets.mono (Nat.le_max_left _ _)⟩
  | false =>
      obtain ⟨ready, hready, hmax⟩ := bind_eq_ok.mp run
      obtain rfl := Except.ok.inj hmax
      have spec := HbmTimingEngine.earliestIssue_ok hready
      refine ⟨Nat.le_trans spec.1 (Nat.le_max_left _ _), Nat.le_max_right _ _, ?_⟩
      rw [hall]
      exact spec.2.mono (Nat.le_max_left _ _)

/-- A query fails on a bound beyond 64 bits, on a bank outside the topology, or on
a command without a transition. -/
theorem earliestCommand_error {command : HbmCommand} {address : HbmAddress} {now : Nat}
    {e : HbmError} (run : earliestCommand config mapper c command address now = .error e) :
    e.isOverflow = true ∨
      (e.isRange = true ∧ ∃ index < c.banks.length,
        mapper.bankAddress (u32 (config.firstFlatBank + index)) = .error e) ∨
      ∃ s, config.standard = some s ∧ s.transitionFor command = .error e := by
  simp only [earliestCommand, bind_eq_error] at run
  rcases run with hall | ⟨all, hall, run⟩
  · unfold checksAllBanks at hall
    split at hall
    · cases hall
    · rename_i s hs
      split at hall
      · cases hall
      · rename_i e' he
        cases hall
        exact .inr (.inr ⟨s, hs, he⟩)
  · cases all with
    | true =>
        rcases bind_eq_error.mp run with hready | ⟨ready, _, hmax⟩
        · rcases earliestAllBank_error hready with h | h
          · exact .inl h
          · exact .inr (.inl h)
        · cases hmax
    | false =>
        rcases bind_eq_error.mp run with hready | ⟨ready, _, hmax⟩
        · exact .inl (HbmTimingEngine.earliestIssue_error hready)
        · cases hmax

end HbmController

end HbmSim
