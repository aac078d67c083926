import HbmSim.System.Geometry
import HbmSim.System.Spacing

/-!
What the timing engine remembers, and what its resources couple.

Four issue times for each command and resource are enough: an answer is the one a reference
gives that keeps every recorded command. Among the bounds of the HBM2 and HBM3 tables the SID
bounds apply across pseudo-channels, since the SID index of an address is its stack.
-/

namespace HbmSim

open HbmSim.Lib

/-! ### The reference -/

/-- The history after some commands have been recorded, the latest first. -/
def historyOf (records : List RecordedCommand) : CommandHistory :=
  records.foldr (fun r h => HbmTimingEngine.record h r.command r.address r.issuedAt) fun _ _ => []

/-- The bound a row puts on a command at an address, after all the records. -/
def latestBound (records : List RecordedCommand) (address : HbmAddress) (row : TimingConstraint) :
    Option Nat :=
  (timesOn records row.scope (address.scopeIndex row.scope) row.preceding)[row.distance - 1]?.map
    (· + row.delay)

/-- The bounds of the rows that apply to a command. -/
def referenceBounds (rows : List TimingConstraint) (records : List RecordedCommand)
    (command : HbmCommand) (address : HbmAddress) : List Nat :=
  (rows.filter fun row => row.following = timingCommand command).filterMap
    (latestBound records address)

/-- The earliest issue time if every record is kept. -/
def referenceIssue (rows : List TimingConstraint) (records : List RecordedCommand)
    (command : HbmCommand) (address : HbmAddress) (now : Nat) : Except HbmError Nat :=
  let bounds := referenceBounds rows records command address
  if ∃ bound ∈ bounds, maxSimTime < bound then
    .error (.overflowError "timing constraint overflows SimTime")
  else .ok (bounds.foldl max now)

/-- An answer that is not earlier than another; an overflow is later than every time. -/
def NotEarlier (after before : Except HbmError Nat) : Prop :=
  ∀ time, after = .ok time → ∃ time', before = .ok time' ∧ time' ≤ time

/-- No record is earlier than one before it. -/
def InOrder (records : List RecordedCommand) : Prop :=
  records.Pairwise fun r earlier => earlier.issuedAt ≤ r.issuedAt

/-- The delays of the table are 64-bit times. -/
def HbmTimingSpec.Fits (t : HbmTimingSpec) : Prop := ∀ row ∈ t.constraints, row.delay ≤ maxSimTime

/-! ### The bounded history -/

section

variable {rows : List TimingConstraint} {records later : List RecordedCommand}
  {command : HbmCommand} {address : HbmAddress}

/-- The history of a resource holds the times on it. -/
theorem historyOf_times (small : ∀ r ∈ records, r.address.Small) (small' : address.Small)
    (scope : TimingScope) (k : HbmCommand) :
    historyOf records (resourceKey scope address) k =
      (timesOn records scope (address.scopeIndex scope) k).take 4 := by
  induction records with
  | nil => rfl
  | cons r rest ih =>
      have before := ih fun r' hr' => small r' (List.mem_cons_of_mem _ hr')
      show HbmTimingEngine.record (historyOf rest) r.command r.address r.issuedAt
        (resourceKey scope address) k = _
      rw [record_resource _ _ (small r List.mem_cons_self) small', timesOn_cons, before]
      by_cases hit : k = timingCommand r.command ∧
          address.scopeIndex scope = r.address.scopeIndex scope
      · rw [if_pos hit, if_pos ⟨hit.1.symm, hit.2.symm⟩]
        simp [List.take_take]
      · rw [if_neg hit, if_neg fun h => hit ⟨h.1.symm, h.2.symm⟩]

/-- One row of the scan, in terms of all the records. -/
theorem constraintStep_reference (small : ∀ r ∈ records, r.address.Small) (small' : address.Small)
    {row : TimingConstraint} (near : 1 ≤ row.distance ∧ row.distance ≤ 4)
    (fits : row.delay ≤ maxSimTime) (follows : row.following = timingCommand command)
    (earliest : Nat) :
    HbmTimingEngine.constraintStep (historyOf records) command address earliest row =
      match latestBound records address row with
      | none => .ok earliest
      | some bound =>
          if maxSimTime < bound then .error (.overflowError "timing constraint overflows SimTime")
          else .ok (max earliest bound) := by
  unfold HbmTimingEngine.constraintStep latestBound
  rw [if_neg (not_not.mpr follows), historyOf_times small small', List.getElem?_take,
    if_pos (by omega)]
  cases (timesOn records row.scope (address.scopeIndex row.scope) row.preceding)[row.distance - 1]? with
  | none => rfl
  | some preceding =>
      have same : (preceding > maxSimTime - row.delay) = (maxSimTime < preceding + row.delay) :=
        propext (by omega)
      simp only [Option.map_some, same]

/-- The engine answers as the reference does. -/
theorem earliestIssue_reference (command : HbmCommand)
    (small : ∀ r ∈ records, r.address.Small) (small' : address.Small)
    (near : ∀ row ∈ rows, 1 ≤ row.distance ∧ row.distance ≤ 4)
    (fits : ∀ row ∈ rows, row.delay ≤ maxSimTime) (now : Nat) :
    HbmTimingEngine.earliestIssue rows (historyOf records) command address now =
      referenceIssue rows records command address now := by
  induction rows generalizing now with
  | nil => rfl
  | cons row rest ih =>
      have later := ih (fun row hrow => near row (List.mem_cons_of_mem _ hrow))
        fun row hrow => fits row (List.mem_cons_of_mem _ hrow)
      unfold HbmTimingEngine.earliestIssue at later ⊢
      rw [List.foldlM_cons]
      by_cases follows : row.following = timingCommand command
      · rw [constraintStep_reference small small' (near row List.mem_cons_self)
          (fits row List.mem_cons_self) follows]
        unfold referenceIssue referenceBounds at later ⊢
        rw [List.filter_cons_of_pos (by simpa using follows), List.filterMap_cons]
        cases latestBound records address row with
        | none => exact later now
        | some bound =>
            by_cases beyond : maxSimTime < bound
            · simp only [beyond, if_true]
              exact (if_pos ⟨bound, List.mem_cons_self, beyond⟩).symm
            · simp only [beyond, if_false]
              refine (later (max now bound)).trans ?_
              simp only [List.mem_cons, exists_eq_or_imp, beyond, false_or, List.foldl_cons]
      · have skips : HbmTimingEngine.constraintStep (historyOf records) command address now row =
            .ok now := if_pos follows
        rw [skips]
        refine (later now).trans ?_
        unfold referenceIssue referenceBounds
        rw [List.filter_cons_of_neg (by simpa using follows)]

/-! ### Later records -/

theorem timesOn_append (later records : List RecordedCommand) (scope : TimingScope) (index : Nat)
    (k : HbmCommand) :
    timesOn (later ++ records) scope index k =
      timesOn later scope index k ++ timesOn records scope index k := by
  unfold timesOn
  rw [List.filter_append, List.map_append]

/-- The times on a resource are sorted. -/
theorem timesOn_sorted (ordered : InOrder records) (scope : TimingScope) (index : Nat)
    (k : HbmCommand) : (timesOn records scope index k).Pairwise fun at_ earlier => earlier ≤ at_ :=
  List.pairwise_map.mpr (ordered.sublist List.filter_sublist)

/-- Putting later entries in front of a list in order makes no entry earlier. -/
theorem getElem?_append_sorted {later times : List Nat} {i at_ : Nat}
    (sorted : (later ++ times).Pairwise fun at_ earlier => earlier ≤ at_)
    (found : times[i]? = some at_) : ∃ at', (later ++ times)[i]? = some at' ∧ at_ ≤ at' := by
  have inside : i < times.length := (List.getElem?_eq_some_iff.mp found).1
  have among : i < (later ++ times).length := by
    rw [List.length_append]
    omega
  refine ⟨(later ++ times)[i], List.getElem?_eq_getElem among, ?_⟩
  have shifted : (later ++ times)[later.length + i]? = some at_ := by
    rw [List.getElem?_append_right (Nat.le_add_right _ _), Nat.add_sub_cancel_left, found]
  obtain ⟨within, same⟩ := List.getElem?_eq_some_iff.mp shifted
  by_cases first : later.length = 0
  · obtain rfl := List.eq_nil_of_length_eq_zero first
    obtain ⟨_, rfl⟩ := List.getElem?_eq_some_iff.mp found
    exact Nat.le_refl _
  · rw [← same]
    exact List.pairwise_iff_getElem.mp sorted i (later.length + i) among within (by omega)

/-- A later record raises the bound of a row, or leaves it. -/
theorem latestBound_later (ordered : InOrder (later ++ records)) {row : TimingConstraint}
    {bound : Nat} (found : latestBound records address row = some bound) :
    ∃ bound', latestBound (later ++ records) address row = some bound' ∧ bound ≤ bound' := by
  unfold latestBound at found ⊢
  obtain ⟨at_, hat, rfl⟩ := Option.map_eq_some_iff.mp found
  have sorted := timesOn_sorted ordered row.scope (address.scopeIndex row.scope) row.preceding
  rw [timesOn_append] at sorted ⊢
  obtain ⟨at', hat', le⟩ := getElem?_append_sorted sorted hat
  exact ⟨at' + row.delay, by rw [hat']; rfl, Nat.add_le_add_right le _⟩

/-- Later records put no bound earlier. -/
theorem referenceBounds_later (ordered : InOrder (later ++ records)) (rows : List TimingConstraint)
    (command : HbmCommand) (address : HbmAddress) :
    ∀ bound ∈ referenceBounds rows records command address,
      ∃ bound' ∈ referenceBounds rows (later ++ records) command address, bound ≤ bound' := by
  intro bound mem
  obtain ⟨row, hrow, found⟩ := List.mem_filterMap.mp mem
  obtain ⟨bound', found', le⟩ := latestBound_later ordered found
  exact ⟨bound', List.mem_filterMap.mpr ⟨row, hrow, found'⟩, le⟩

/-- A time is after the largest bound if it is after each. -/
theorem foldl_max_le {bounds : List Nat} {now time : Nat} :
    bounds.foldl max now ≤ time ↔ now ≤ time ∧ ∀ bound ∈ bounds, bound ≤ time := by
  induction bounds generalizing now with
  | nil => simp
  | cons bound rest ih =>
      rw [List.foldl_cons, ih, Nat.max_le, List.forall_mem_cons, and_assoc]

/-- Later records make no answer earlier. -/
theorem referenceIssue_later (ordered : InOrder (later ++ records)) (now : Nat) :
    NotEarlier (referenceIssue rows (later ++ records) command address now)
      (referenceIssue rows records command address now) := by
  intro time run
  unfold referenceIssue at run ⊢
  dsimp only at run ⊢
  split at run
  · cases run
  rename_i fit
  have bounds := referenceBounds_later ordered rows command address
  have latest := foldl_max_le.mp (Nat.le_of_eq (Except.ok.inj run))
  rw [if_neg ?_]
  · refine ⟨_, rfl, foldl_max_le.mpr ⟨latest.1, fun bound mem => ?_⟩⟩
    obtain ⟨bound', mem', le⟩ := bounds bound mem
    exact Nat.le_trans le (latest.2 bound' mem')
  · rintro ⟨bound, mem, beyond⟩
    obtain ⟨bound', mem', le⟩ := bounds bound mem
    exact fit ⟨bound', mem', Nat.lt_of_lt_of_le beyond le⟩

/-- The four-entry history is exact, and records in order make no answer earlier. -/
theorem bounded_history_exact (t : HbmTimingSpec) (fits : t.Fits)
    (small : ∀ r ∈ records, r.address.Small) (small' : address.Small) (now : Nat) :
    HbmTimingEngine.earliestIssue t.constraints (historyOf records) command address now =
        referenceIssue t.constraints records command address now ∧
      ∀ later, (∀ r ∈ later, r.address.Small) → InOrder (later ++ records) →
        NotEarlier
          (HbmTimingEngine.earliestIssue t.constraints (historyOf (later ++ records)) command
            address now)
          (HbmTimingEngine.earliestIssue t.constraints (historyOf records) command address now) := by
  have near := t.distance_le
  have exact := earliestIssue_reference command small small' near fits now
  refine ⟨exact, fun later smallLater ordered => ?_⟩
  rw [exact, earliestIssue_reference command (fun r hr => ?_) small' near fits now]
  · exact referenceIssue_later ordered now
  · rcases List.mem_append.mp hr with new | old
    · exact smallLater r new
    · exact small r old

/-- An ACT to a bank of its own, some nanoseconds after the start. -/
def activation (i : Nat) : RecordedCommand :=
  ⟨.act, { bank := i, flatBank := i }, i, 1000 * i, none⟩

/-- The sample addresses are within the resource keys. -/
theorem activation_small {i : Nat} (lt : i < 2 ^ 32) : (activation i).address.Small := by
  intro scope
  cases scope
  case bank => exact lt
  all_goals exact Nat.two_pow_pos 32

/-- After five activations the window opens with the second one, and after a sixth with the
third. -/
theorem bounded_history_exact_window :
    ∃ records later : List RecordedCommand, records.length = 5 ∧ later.length = 1 ∧
      HbmTimingEngine.earliestIssue HbmStandard.hbm2.timing.constraints (historyOf records) .act
          (activation 6).address 6000 = .ok (1000 + HbmStandard.hbm2.timing.tFaw) ∧
        referenceIssue HbmStandard.hbm2.timing.constraints records .act (activation 6).address 6000 =
          .ok (1000 + HbmStandard.hbm2.timing.tFaw) ∧
        HbmTimingEngine.earliestIssue HbmStandard.hbm2.timing.constraints
          (historyOf (later ++ records)) .act (activation 6).address 6000 =
            .ok (2000 + HbmStandard.hbm2.timing.tFaw) ∧
        NotEarlier
          (HbmTimingEngine.earliestIssue HbmStandard.hbm2.timing.constraints
            (historyOf (later ++ records)) .act (activation 6).address 6000)
          (HbmTimingEngine.earliestIssue HbmStandard.hbm2.timing.constraints
            (historyOf records) .act (activation 6).address 6000) := by
  have small : ∀ r ∈ [activation 5, activation 4, activation 3, activation 2, activation 1,
      activation 0], r.address.Small := by
    simp only [List.forall_mem_cons]
    exact ⟨activation_small (by decide), activation_small (by decide), activation_small (by decide),
      activation_small (by decide), activation_small (by decide), activation_small (by decide),
      nofun⟩
  obtain ⟨last, former⟩ := List.forall_mem_cons.mp small
  obtain ⟨exact, later⟩ := bounded_history_exact HbmStandard.hbm2.timing
    (by unfold HbmTimingSpec.Fits; decide) former (activation_small (i := 6) (by decide)) 6000
  refine ⟨_, [activation 5], rfl, rfl, ?before, ?reference, ?after,
    later [activation 5] (fun r hr => List.mem_singleton.mp hr ▸ last) (by unfold InOrder; decide)⟩
  case before => decide +kernel
  case reference =>
    rw [← exact]
    decide +kernel
  case after => decide +kernel

end

/-! ### Pseudo-channels -/

/-- An address the mapper gives out. -/
def HbmAddressMapper.Names (m : HbmAddressMapper) (a : HbmAddress) : Prop :=
  (∃ byte, m.map byte = .ok a) ∨ ∃ bank, m.bankAddress bank = .ok a

/-- The mapper of a device of the standard. -/
def HbmStandard.mapper (standard : HbmStandard) : HbmAddressMapper :=
  HbmConfig.mapper { device := .fromStandard standard }

/-- A command recorded in one pseudo-channel of a channel moves no command in another. -/
def Isolates (standard : HbmStandard) (recorded queried : HbmCommand) : Prop :=
  ∀ x y, standard.mapper.Names x → standard.mapper.Names y → x.flatChannel = y.flatChannel →
    x.pseudoChannel ≠ y.pseudoChannel → ∀ (history : CommandHistory) (at_ now : Nat),
      HbmTimingEngine.earliestIssue standard.timing.constraints
          (HbmTimingEngine.record history recorded x at_) queried y now =
        HbmTimingEngine.earliestIssue standard.timing.constraints history queried y now

/-- The commands whose bounds reach beyond a pseudo-channel: channel-wide maintenance and
what follows it, and two transfers of one direction. -/
def couples (recorded queried : HbmCommand) : Bool :=
  match timingCommand recorded, timingCommand queried with
  | .refreshAllBank, .act | .rfmAllBank, .act | .read, .read | .write, .write => true
  | _, _ => false

section

variable {m : HbmAddressMapper} {x y : HbmAddress}

/-- A mapped address is within the resource keys. -/
theorem HbmAddressMapper.Names.small (h : m.Names x) : x.Small := by
  rcases h with ⟨byte, run⟩ | ⟨bank, run⟩
  · exact map_small run
  · exact bankAddress_small run

/-- The flat indices of an address lead up to its pseudo-channel. -/
theorem HbmAddressMapper.Names.levels (fits : m.topology.Fits) (h : m.Names x) :
    x.flatBank / m.topology.banksPerBankGroup = x.flatBankGroup ∧
      x.flatBankGroup / m.topology.bankGroupsPerPseudoChannel = x.flatPseudoChannel ∧
        x.flatPseudoChannel % m.topology.pseudoChannelsPerChannel = x.pseudoChannel := by
  rcases h with ⟨byte, run⟩ | ⟨bank, run⟩
  · have flat := map_flat fits run
    refine ⟨?_, ?_, ?_⟩
    · rw [flat.flatBank, flat_div flat.bank]
    · rw [flat.flatBankGroup, flat_div flat.bankGroup]
    · rw [flat.flatPseudoChannel, flat_mod flat.pseudoChannel]
  · unfold bankAddress at run
    dsimp only at run
    split at run
    · cases run
    · cases run
      exact ⟨rfl, rfl, rfl⟩

/-- Different pseudo-channels share no bank, bank group or pseudo-channel index. -/
theorem scopeIndex_ne (fits : m.topology.Fits) (hx : m.Names x) (hy : m.Names y)
    (apart : x.pseudoChannel ≠ y.pseudoChannel) {scope : TimingScope} (sid : scope ≠ .sid)
    (channel : scope ≠ .channel) : y.scopeIndex scope ≠ x.scopeIndex scope := by
  obtain ⟨bank, group, pseudo⟩ := hx.levels fits
  obtain ⟨bank', group', pseudo'⟩ := hy.levels fits
  have pseudoChannels : y.flatPseudoChannel ≠ x.flatPseudoChannel := fun same =>
    apart (by rw [← pseudo, ← pseudo', same])
  have groups : y.flatBankGroup ≠ x.flatBankGroup := fun same =>
    pseudoChannels (by rw [← group, ← group', same])
  have banks : y.flatBank ≠ x.flatBank := fun same => groups (by rw [← bank, ← bank', same])
  cases scope with
  | bank => exact banks
  | bankGroup => exact groups
  | sid => exact absurd rfl sid
  | pseudoChannel => exact pseudoChannels
  | channel => exact absurd rfl channel

/-- An answer reads the histories its rows name only. -/
theorem earliestIssue_congr {rows : List TimingConstraint} {history history' : CommandHistory}
    {command : HbmCommand} (same : ∀ row ∈ rows, row.following = timingCommand command →
      history (resourceKey row.scope y) row.preceding =
        history' (resourceKey row.scope y) row.preceding) (now : Nat) :
    HbmTimingEngine.earliestIssue rows history command y now =
      HbmTimingEngine.earliestIssue rows history' command y now := by
  induction rows generalizing now with
  | nil => rfl
  | cons row rest ih =>
      have later := fun now => ih (fun row hrow => same row (List.mem_cons_of_mem _ hrow)) now
      have first : HbmTimingEngine.constraintStep history command y now row =
          HbmTimingEngine.constraintStep history' command y now row := by
        unfold HbmTimingEngine.constraintStep
        by_cases follows : row.following = timingCommand command
        · rw [same row List.mem_cons_self follows]
        · rw [if_pos follows, if_pos follows]
      unfold HbmTimingEngine.earliestIssue at later ⊢
      simp only [List.foldlM_cons, first, later]

/-- The rows of a table that reach beyond a pseudo-channel name coupled commands. -/
def RowsCouple (rows : List TimingConstraint) : Prop :=
  ∀ row ∈ rows, row.scope = .sid ∨ row.scope = .channel →
    couples row.preceding row.following = true

/-- Coupling does not tell auto-precharge commands from plain ones. -/
theorem couples_timingCommand (recorded queried : HbmCommand) :
    couples (timingCommand recorded) (timingCommand queried) = couples recorded queried := by
  unfold couples
  rw [timingCommand_timingCommand, timingCommand_timingCommand]

/-- Commands that are not coupled are isolated. -/
theorem isolates_of_not_couples {standard : HbmStandard} {recorded queried : HbmCommand}
    (fits : standard.mapper.topology.Fits) (table : RowsCouple standard.timing.constraints)
    (apart : couples recorded queried = false) : Isolates standard recorded queried := by
  intro x y hx hy _ pseudo history at_ now
  refine earliestIssue_congr (fun row hrow follows => ?_) now
  rw [record_resource _ _ hx.small hy.small]
  refine if_neg fun ⟨precedes, index⟩ => ?_
  have narrow : ¬ (row.scope = .sid ∨ row.scope = .channel) := fun wide => by
    have coupled := table row hrow wide
    rw [precedes, follows, couples_timingCommand, apart] at coupled
    cases coupled
  exact scopeIndex_ne fits hx hy pseudo (fun sid => narrow (.inl sid))
    (fun channel => narrow (.inr channel)) index

/-- After a command at instant one in the first bank, a command coupled to it cannot issue at
instant zero in the first bank of the other pseudo-channel. -/
def delays (standard : HbmStandard) (recorded queried : HbmCommand) : Bool :=
  match standard.mapper.bankAddress 0, standard.mapper.bankAddress 16 with
  | .ok x, .ok y =>
      match HbmTimingEngine.earliestIssue standard.timing.constraints
        (HbmTimingEngine.record (fun _ _ => []) recorded x 1) queried y 0 with
      | .ok time =>
          decide (x.flatChannel = y.flatChannel ∧ x.pseudoChannel ≠ y.pseudoChannel ∧ 0 < time)
      | .error _ => false
  | _, _ => false

/-- A delay between two commands is no isolation. -/
theorem not_isolates {standard : HbmStandard} {recorded queried : HbmCommand}
    (delayed : delays standard recorded queried = true) : ¬ Isolates standard recorded queried := by
  intro isolates
  unfold delays at delayed
  split at delayed
  · rename_i x y first other
    split at delayed
    · rename_i time issue
      obtain ⟨channel, pseudo, late⟩ := of_decide_eq_true delayed
      have same := isolates x y (.inr ⟨0, first⟩) (.inr ⟨16, other⟩) channel pseudo
        (fun _ _ => []) 1 0
      have free : ∀ rows : List TimingConstraint,
          HbmTimingEngine.earliestIssue rows (fun _ _ => []) queried y 0 = .ok 0 := by
        intro rows
        induction rows with
        | nil => rfl
        | cons row rest ih =>
            have skips : HbmTimingEngine.constraintStep (fun _ _ => []) queried y 0 row =
              .ok 0 := by
              unfold HbmTimingEngine.constraintStep
              split <;> rfl
            unfold HbmTimingEngine.earliestIssue at ih ⊢
            rw [List.foldlM_cons, skips]
            exact ih
      rw [issue, free] at same
      obtain rfl := Except.ok.inj same
      exact Nat.lt_irrefl _ late
    · cases delayed
  · cases delayed

/-- Where two commands are coupled one delays the other. -/
theorem delays_of_couples {standard : HbmStandard} (known : standard = .hbm2 ∨ standard = .hbm3)
    {recorded queried : HbmCommand} (coupled : couples recorded queried = true) :
    delays standard recorded queried = true := by
  revert coupled
  rcases known with rfl | rfl <;> cases recorded <;> cases queried <;>
    first | exact fun coupled => Bool.noConfusion coupled | exact fun _ => by decide +kernel

/-- Two commands are isolated if no row couples them. -/
theorem isolates_iff {standard : HbmStandard} (known : standard = .hbm2 ∨ standard = .hbm3)
    (recorded queried : HbmCommand) :
    Isolates standard recorded queried ↔ couples recorded queried = false := by
  have fits : standard.mapper.topology.Fits := by
    rcases known with rfl | rfl <;> constructor <;> decide
  have table : RowsCouple standard.timing.constraints := by
    unfold RowsCouple
    rcases known with rfl | rfl <;> decide
  constructor
  · intro isolates
    exact Bool.eq_false_iff.mpr fun coupled =>
      not_isolates (delays_of_couples known coupled) isolates
  · exact isolates_of_not_couples fits table

/-- In both standards exactly the coupled commands reach beyond a pseudo-channel. -/
theorem pseudo_channels_isolated (recorded queried : HbmCommand) :
    (Isolates .hbm2 recorded queried ↔ couples recorded queried = false) ∧
      (Isolates .hbm3 recorded queried ↔ couples recorded queried = false) :=
  ⟨isolates_iff (.inl rfl) recorded queried, isolates_iff (.inr rfl) recorded queried⟩

/-- A read delays a read of the other pseudo-channel. -/
theorem pseudo_channels_coupled :
    ¬ ∀ recorded ∈ [HbmCommand.act, .preBank, .read, .write, .refreshPerBank],
      ∀ queried, queried ≠ .refreshAllBank → queried ≠ .rfmAllBank →
        Isolates .hbm2 recorded queried := by
  intro claim
  have reads := claim .read (by decide) .read (by decide) (by decide)
  exact not_isolates (by decide +kernel) reads

end

end HbmSim
