import HbmSim.System.Checked

/-!
Replaying a list of actions.

A concrete run of the system can be computed; the states it passes are reachable.
-/

namespace HbmSim

namespace HbmSystem

/-- The states of the runs in which every step meets a condition on the state before it. -/
inductive ReachableWith (cfg : HbmConfig) (meets : HbmSystem → Action → Prop)
    (escapes : HbmError → Prop) : HbmSystem → Prop
  | create {s} (created : create cfg = .ok s) : ReachableWith cfg meets escapes s
  | perform {s t} (action : Action) (reached : ReachableWith cfg meets escapes s)
      (met : meets s action) (performed : perform cfg action s = .ok () t) :
      ReachableWith cfg meets escapes t
  | escape {s t e} (action : Action) (reached : ReachableWith cfg meets escapes s)
      (met : meets s action) (performed : perform cfg action s = .error e t)
      (escaped : escapes e) : ReachableWith cfg meets escapes t

variable {cfg : HbmConfig} {escapes : HbmError → Prop} {s t : HbmSystem}

/-- The state a list of actions leads to, if no exception escapes. -/
def replay (cfg : HbmConfig) : List Action → HbmSystem → Option HbmSystem
  | [], s => some s
  | action :: rest, s =>
      match perform cfg action s with
      | .ok _ t => replay cfg rest t
      | .error _ _ => none

theorem Reachable.replay {actions : List Action} (reached : Reachable cfg escapes s)
    (run : replay cfg actions s = some t) : Reachable cfg escapes t := by
  induction actions generalizing s with
  | nil =>
      cases run
      exact reached
  | cons action rest ih =>
      unfold HbmSystem.replay at run
      split at run
      · rename_i performed
        exact ih (.perform action reached performed) run
      · cases run

theorem reachable_initial (valid : cfg.Valid) (count : cfg.channelCount ≠ 0) :
    Reachable cfg escapes (initial cfg) := by
  refine .create ?_
  unfold create
  rw [show cfg.validate = .ok () from valid]
  simp only [bind, Except.bind, pure, Except.pure, if_neg count]

/-- A replayed run reaches a state with a property it computes. -/
theorem exists_reachable (cfg : HbmConfig) (escapes : HbmError → Prop) (actions : List Action)
    (P : HbmSystem → Bool) (valid : cfg.Valid)
    (count : cfg.channelCount ≠ 0)
    (run : (replay cfg actions (initial cfg)).any P = true) :
    ∃ s, Reachable cfg escapes s ∧ P s = true := by
  obtain ⟨s, final, holds⟩ := Option.any_eq_true _ _ |>.mp run
  exact ⟨s, (reachable_initial valid count).replay final, holds⟩

/-- The state a list of actions leads to if the client catches the exceptions that are
allowed to escape and goes on. -/
def replayCatching (cfg : HbmConfig) (allowed : HbmError → Bool) :
    List Action → HbmSystem → Option HbmSystem
  | [], s => some s
  | action :: rest, s =>
      match perform cfg action s with
      | .ok _ t => replayCatching cfg allowed rest t
      | .error e t => if allowed e then replayCatching cfg allowed rest t else none

theorem Reachable.replayCatching {allowed : HbmError → Bool} {actions : List Action}
    (permits : ∀ e, allowed e = true → escapes e) (reached : Reachable cfg escapes s)
    (run : replayCatching cfg allowed actions s = some t) : Reachable cfg escapes t := by
  induction actions generalizing s with
  | nil =>
      cases run
      exact reached
  | cons action rest ih =>
      unfold HbmSystem.replayCatching at run
      split at run
      · rename_i performed
        exact ih (.perform action reached performed) run
      · rename_i performed
        split at run
        · rename_i allows
          exact ih (.escape action reached performed (permits _ allows)) run
        · cases run

/-- A replayed run with caught exceptions reaches a state with a property it computes. -/
theorem exists_reachable_catching (cfg : HbmConfig) (escapes : HbmError → Prop)
    (allowed : HbmError → Bool) (actions : List Action) (P : HbmSystem → Bool)
    (valid : cfg.Valid) (count : cfg.channelCount ≠ 0)
    (permits : ∀ e, allowed e = true → escapes e)
    (run : (replayCatching cfg allowed actions (initial cfg)).any P = true) :
    ∃ s, Reachable cfg escapes s ∧ P s = true := by
  obtain ⟨s, final, holds⟩ := Option.any_eq_true _ _ |>.mp run
  exact ⟨s, (reachable_initial valid count).replayCatching permits final, holds⟩

theorem ReachableWith.reachable {meets : HbmSystem → Action → Prop}
    (h : ReachableWith cfg meets escapes s) : Reachable cfg escapes s := by
  induction h with
  | create created => exact .create created
  | perform action _ _ performed ih => exact ih.perform action performed
  | escape action _ _ performed escaped ih => exact ih.escape action performed escaped

/-- The state a list of actions leads to, if each meets a check and no exception escapes. -/
def replayMeeting (cfg : HbmConfig) (check : HbmSystem → Action → Bool) :
    List Action → HbmSystem → Option HbmSystem
  | [], s => some s
  | action :: rest, s =>
      if check s action then
        match perform cfg action s with
        | .ok _ t => replayMeeting cfg check rest t
        | .error _ _ => none
      else none

theorem ReachableWith.replayMeeting {meets : HbmSystem → Action → Prop}
    {check : HbmSystem → Action → Bool} {actions : List Action}
    (checks : ∀ s action, Reachable cfg escapes s → check s action = true → meets s action)
    (reached : ReachableWith cfg meets escapes s)
    (run : replayMeeting cfg check actions s = some t) : ReachableWith cfg meets escapes t := by
  induction actions generalizing s with
  | nil =>
      cases run
      exact reached
  | cons action rest ih =>
      unfold HbmSystem.replayMeeting at run
      split at run
      · rename_i met
        split at run
        · rename_i performed
          exact ih (.perform action reached (checks _ _ reached.reachable met) performed) run
        · cases run
      · cases run

/-- A replayed run that meets a condition reaches a state with a property it computes. -/
theorem exists_reachableWith (cfg : HbmConfig) {meets : HbmSystem → Action → Prop}
    (escapes : HbmError → Prop) (check : HbmSystem → Action → Bool)
    (checks : ∀ s action, Reachable cfg escapes s → check s action = true → meets s action)
    (actions : List Action) (P : HbmSystem → Bool) (valid : cfg.Valid)
    (count : cfg.channelCount ≠ 0)
    (run : (replayMeeting cfg check actions (initial cfg)).any P = true) :
    ∃ s, ReachableWith cfg meets escapes s ∧ P s = true := by
  obtain ⟨s, final, holds⟩ := Option.any_eq_true _ _ |>.mp run
  have started : ReachableWith cfg meets escapes (initial cfg) :=
    .create (create_ok.mpr ⟨valid, count, rfl⟩)
  exact ⟨s, started.replayMeeting checks final, holds⟩

/-- The exception that an action throws, if it throws one. -/
def thrown (cfg : HbmConfig) (action : Action) (s : HbmSystem) : Option HbmError :=
  match perform cfg action s with
  | .ok _ _ => none
  | .error e _ => some e

theorem error_of_thrown {action : Action} {e : HbmError} (h : thrown cfg action s = some e) :
    ∃ t, perform cfg action s = .error e t := by
  unfold thrown at h
  split at h
  · cases h
  · rename_i run
    cases h
    exact ⟨_, run⟩

/-- All times of the state fit into 64 bits, as a computation. -/
def inTime (cfg : HbmConfig) (s : HbmSystem) : Bool :=
  decide (s.now < 2 ^ 64) &&
    (List.range cfg.channelCount).all fun channel => !(s.controllers channel).wrapped

theorem not_overflowed_of_inTime (h : s.inTime cfg = true) : ¬ Overflowed cfg s := by
  unfold inTime at h
  obtain ⟨now, wrapped⟩ := Bool.and_eq_true _ _ |>.mp h
  rintro (passed | ⟨channel, hchannel, wraps⟩)
  · exact absurd (of_decide_eq_true now) (Nat.not_lt.mpr passed)
  · have fits := List.all_eq_true.mp wrapped channel (List.mem_range.mpr hchannel)
    simp [wraps] at fits

/-- The commands of a record with their banks and times, newest first. -/
def commandLog (recorded : List RecordedCommand) : List (HbmCommand × Nat × Nat) :=
  recorded.map fun r => (r.command, r.bank, r.issuedAt)

/-- The entry before the last `n` in the log of the first channel, and a check of the due
instants raised there and of the commands before the entry. -/
def recordedAt (s : HbmSystem) (n : Nat) (entry : HbmCommand × Nat × Nat)
    (P : List Nat → List RecordedCommand → Bool) : Bool :=
  let c := s.controllers 0
  decide ((commandLog c.recorded)[n]? = some entry) && P c.raised (c.recorded.drop (n + 1))

/-- A replayed run in time records a command in the first channel. -/
theorem exists_recorded (cfg : HbmConfig) (actions : List Action) (n : Nat) (k : HbmCommand)
    (bank at_ : Nat) (P : List Nat → List RecordedCommand → Bool) (valid : cfg.Valid)
    (count : cfg.channelCount ≠ 0)
    (run : (replay cfg actions (initial cfg)).any
      (fun s => s.inTime cfg && s.recordedAt n (k, bank, at_) P) = true) :
    ∃ s r earlier, Reachable cfg NoEscape s ∧ ¬ Overflowed cfg s ∧
      (r :: earlier) <:+ (s.controllers 0).recorded ∧
        (r.command = k ∧ r.bank = bank ∧ r.issuedAt = at_) ∧
          P (s.controllers 0).raised earlier = true := by
  obtain ⟨s, reached, final⟩ := exists_reachable cfg NoEscape actions _ valid count run
  obtain ⟨inTime, final⟩ := Bool.and_eq_true _ _ |>.mp final
  obtain ⟨entry, holds⟩ := Bool.and_eq_true _ _ |>.mp final
  have entry := of_decide_eq_true entry
  unfold commandLog at entry
  rw [List.getElem?_map, Option.map_eq_some_iff] at entry
  obtain ⟨r, found, same⟩ := entry
  obtain ⟨within, rfl⟩ := List.getElem?_eq_some_iff.mp found
  refine ⟨s, _, _, reached, not_overflowed_of_inTime inTime, ?_, by simpa using same, holds⟩
  rw [← List.drop_eq_getElem_cons within]
  exact List.drop_suffix n _

/-- Submit a transaction, from outside the callbacks. -/
def submit (tx : HbmTransaction) : Action := .call (.trySubmitNow tx)

/-- Dispatch some events, with callbacks that make no calls. -/
def dispatches (count : Nat) : List Action := List.replicate count (.dispatch [])

end HbmSystem

/-- A custom device with the organization and timing of HBM2, except that its rows hold
fewer columns than the addresses of its mapping name. -/
def HbmConfig.shortRows (controller : ControllerConfig) : HbmConfig :=
  { device :=
      { (DeviceSpec.fromStandard .hbm2).asCustom with
        customOrganization := { HbmStandard.hbm2.organization with columnsPerRow := 16 } }
    controller := controller }

/-- A read that has arrived at time zero. -/
def HbmTransaction.read (id address sizeBytes : Nat) : HbmTransaction :=
  { id := id, op := .read, address := address, sizeBytes := sizeBytes }

/-- A write that has arrived at time zero. -/
def HbmTransaction.write (id address sizeBytes : Nat) : HbmTransaction :=
  { id := id, op := .write, address := address, sizeBytes := sizeBytes }

/-- A custom device of two channels, with room for one read in each. -/
def HbmConfig.twoChannels : HbmConfig :=
  { device :=
      { DeviceSpec.custom with
        customOrganization :=
          { DeviceSpec.custom.customOrganization with topology := { channelsPerStack := 2 } } }
    controller := { readQueueCapacity := 1 } }

/-- Two reads wait for room in the first channel, where a row has to be closed before the next
transfer, while the second channel has issued one. A further read is refused. -/
def HbmSystem.rivals : List HbmSystem.Action :=
  submit (.read 1 16384 64) :: dispatches 8 ++ [.advance 60000, submit (.read 2 0 192)] ++
    dispatches 6 ++ [submit (.read 3 64 128), submit (.read 4 0 64)]

end HbmSim
