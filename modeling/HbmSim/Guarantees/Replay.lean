import HbmSim.Cli.Replay
import HbmSim.Guarantees.Completion
import HbmSim.Lib.Iteration
import HbmSim.System.Acceptance
import HbmSim.System.Geometry

/-!
The command line program loses no row.

Whatever the queue capacity, a refused row waits for a call of the capacity callback that is
still to come: one is pending, or the transactions that take up the room have their events
pending. So the loops of `main` come to an end, and every row has then been accepted and
completed once.
-/

namespace HbmSim

open HbmSim.Lib HbmSystem

/-! ### The trace -/

/-- Fields are parsed into 64 bits. -/
theorem parseU64_lt {field : List Char} {n : Nat} (run : parseU64 field = .ok n) : n < 2 ^ 64 := by
  obtain ⟨⟨value, consumed⟩, read, same⟩ := bind_eq_ok.mp run
  cases same
  unfold stoull at read
  dsimp only at read
  split at read
  · cases read
  · split at read
    · cases read
    · rename_i small
      cases read
      split
      · exact Nat.mod_lt _ (by decide)
      · exact Nat.not_le.mp small

/-- A row is numbered by its line, and its arrival fits 64 bits. -/
theorem parseRow_row {id : Nat} {arrival op address size : List Char} {client : Option (List Char)}
    {tx : HbmTransaction} (run : parseRow id arrival op address size client = .ok tx) :
    tx.id = id ∧ tx.arrivalTime < 2 ^ 64 := by
  unfold parseRow at run
  obtain ⟨op, -, run⟩ := bind_eq_ok.mp run
  obtain ⟨address, -, run⟩ := bind_eq_ok.mp run
  obtain ⟨size, -, run⟩ := bind_eq_ok.mp run
  obtain ⟨time, read, run⟩ := bind_eq_ok.mp run
  obtain ⟨client, -, same⟩ := bind_eq_ok.mp run
  cases same
  exact ⟨rfl, parseU64_lt (mapError_eq_ok.mp read)⟩

/-- So is a line that holds a row. -/
theorem parseLine_row {id : Nat} {line : List Char} {tx : HbmTransaction}
    (run : parseLine id line = .ok (some tx)) : tx.id = id ∧ tx.arrivalTime < 2 ^ 64 := by
  unfold parseLine at run
  split at run
  · cases run
  · obtain ⟨read, run, same⟩ := map_eq_ok.mp run
    cases same
    unfold parseFields at run
    split at run
    · exact parseRow_row run
    · exact parseRow_row run
    · cases run

/-- What a trace with a line in front consists of. -/
theorem parseTrace_cons {id : Nat} {line : List Char} {rest : List (List Char)}
    {rows : List HbmTransaction} (run : parseTrace id (line :: rest) = .ok rows) :
    (parseLine id line = .ok none ∧ parseTrace id rest = .ok rows) ∨
      ∃ tx later, parseLine id line = .ok (some tx) ∧ parseTrace (id + 1) rest = .ok later ∧
        rows = tx :: later := by
  unfold parseTrace at run
  obtain ⟨read, parsed, run⟩ := bind_eq_ok.mp run
  cases read with
  | none => exact .inl ⟨parsed, run⟩
  | some tx =>
      obtain ⟨later, others, same⟩ := bind_eq_ok.mp run
      cases same
      exact .inr ⟨tx, later, parsed, others, rfl⟩

/-- The rows are numbered one after the other. -/
theorem parseTrace_ids {id : Nat} {lines : List (List Char)} {rows : List HbmTransaction}
    (run : parseTrace id lines = .ok rows) : rows.map (·.id) = List.range' id rows.length := by
  induction lines generalizing id rows with
  | nil =>
      cases run
      rfl
  | cons line rest ih =>
      rcases parseTrace_cons run with ⟨-, others⟩ | ⟨tx, later, parsed, others, rfl⟩
      · exact ih others
      · rw [List.map_cons, List.length_cons, List.range'_succ, ih others, (parseLine_row parsed).1]

/-- All arrivals of a trace fit 64 bits. -/
theorem parseTrace_small {id : Nat} {lines : List (List Char)} {rows : List HbmTransaction}
    (run : parseTrace id lines = .ok rows) : ∀ row ∈ rows, row.arrivalTime < 2 ^ 64 := by
  induction lines generalizing id rows with
  | nil =>
      cases run
      simp
  | cons line rest ih =>
      rcases parseTrace_cons run with ⟨-, others⟩ | ⟨tx, later, parsed, others, rfl⟩
      · exact ih others
      · exact List.forall_mem_cons.mpr ⟨(parseLine_row parsed).2, ih others⟩

/-! ### The configurations of the program -/

namespace CliOptions

/-- The queue capacities are all that can differ from the profile. -/
theorem config_same (options : CliOptions) : options.config.device = options.profile.config.device ∧
    options.config.validate = options.profile.config.validate := by
  obtain ⟨profile, capacity, completions⟩ := options
  cases capacity <;> exact ⟨rfl, rfl⟩

/-- Every choice of options is a valid configuration. -/
theorem valid (options : CliOptions) : options.config.Valid := by
  refine options.config_same.2.trans ?_
  cases options.profile <;> rfl

/-- The program simulates one channel. -/
theorem channelCount (options : CliOptions) : options.config.channelCount = 1 := by
  unfold HbmConfig.channelCount
  rw [options.config_same.1]
  cases options.profile <;> rfl

/-- The program never enables refresh or RFM. -/
theorem unmaintained (options : CliOptions) : options.config.Unmaintained := by
  obtain ⟨profile, capacity, completions⟩ := options
  cases capacity <;> cases profile <;> exact ⟨rfl, rfl⟩

/-- A custom device of the program keeps its rows open. -/
theorem opens (options : CliOptions) : options.config.device.standard = none →
    options.config.controller.rowPolicy.useAutoPrecharge = false := by
  intro _
  obtain ⟨profile, capacity, completions⟩ := options
  cases capacity <;> cases profile <;> rfl

/-- Every address is one of the device's. -/
theorem covered (options : CliOptions) : options.config.Covered := by
  have device := options.config_same.1
  cases profile : options.profile with
  | hbm2_2000 =>
      rw [profile] at device
      exact HbmConfig.covered_of_standard (congrArg DeviceSpec.standard device)
  | hbm3_6400 =>
      rw [profile] at device
      exact HbmConfig.covered_of_standard (congrArg DeviceSpec.standard device)
  | default =>
      rw [profile] at device
      have fits : options.config.device.organization.topology.Fits := by
        rw [device]
        exact ⟨rfl, by decide⟩
      refine HbmConfig.covered_of_fits (fun byte => ?_) fits
      have inside : options.config.mapper.outside (options.config.mapper.decode byte) = false := by
        unfold HbmConfig.mapper
        rw [device]
        exact HbmAddressMapper.linear_inside rfl (by decide)
      unfold HbmAddressMapper.map
      rw [if_neg (Bool.eq_false_iff.mp inside)]
      exact ⟨_, rfl⟩

end CliOptions

/-! ### The loops of `main` -/

/-- The row that is read and not accepted yet. -/
def MainPhase.row : MainPhase → Option HbmTransaction
  | .arriving tx => some tx
  | .runningUntil tx => some tx
  | .submitting tx => some tx
  | .waiting tx => some tx
  | _ => none

namespace TraceReplay

variable (cfg : HbmConfig)

/-- What `main` relies on where it is. -/
def Established (r : TraceReplay) : Prop :=
  match r.phase with
  | .runningUntil tx => r.system.now ≤ tx.arrivalTime
  | .submitting tx => tx.arrivalTime ≤ r.system.now ∧ r.capacityChanged = false
  | .waiting tx => tx.arrivalTime ≤ r.system.now ∧
      (r.capacityChanged = true ∨ CapacityPending r.system ∨ Refused cfg r.system)
  | .finishing => r.lines = []
  | .printed totals => r.lines = [] ∧ r.system.scheduler.events = [] ∧
      totals = printedTotals r.system.stats
  | .failed _ => False
  | _ => True

/-- The rows before the one `main` is at are accepted, and those of the rest of the trace are
still to be read. -/
structure Underway (rows todo : List HbmTransaction) (r : TraceReplay) : Prop where
  reached : Reachable cfg NoEscape r.system
  listens : r.system.capacityCallback = true
  unread : parseTrace r.id r.lines = .ok todo
  split : rows = (acceptedTransactions r.system.trace).reverse ++ (r.phase.row.toList ++ todo)
  later : ∀ tx ∈ todo, r.lastArrival ≤ tx.arrivalTime
  established : Established cfg r

/-- A time beyond 64 bits has stopped the program. -/
def Stopped (r : TraceReplay) : Prop :=
  ∃ e, r.phase = .failed (.thrown e) ∧ (e.isOverflow = true ∨ Overflowed cfg r.system)

/-- How far `main` is from reading a line, accepting a row or dispatching an event. -/
def rank (r : TraceReplay) : Nat :=
  match r.phase with
  | .reading => 6
  | .arriving _ => 5
  | .runningUntil _ => 4
  | .submitting _ => 2
  | .waiting _ => if r.capacityChanged then 3 else 1
  | .finishing => 1
  | .printed _ => 0
  | .failed _ => 0

/-- The rows that are left count twice, and once when they are read. -/
def rowsLeft (r : TraceReplay) : Nat := 2 * r.lines.length + r.phase.row.toList.length

/-- Less is left of the replay. -/
def Sooner (t r : TraceReplay) : Prop :=
  Prod.Lex (· < ·) (Prod.Lex (fun a b => Prod.Lex (· < ·) (Prod.Lex (· < ·) (· < ·)) a b) (· < ·))
    (t.rowsLeft, left cfg t.system, t.rank) (r.rowsLeft, left cfg r.system, r.rank)

theorem sooner_wf : WellFounded (Sooner cfg) :=
  InvImage.wf (fun r : TraceReplay => (r.rowsLeft, left cfg r.system, r.rank))
    (Nat.lt_wfRel.wf.prod_lex
      ((Nat.lt_wfRel.wf.prod_lex (Nat.lt_wfRel.wf.prod_lex Nat.lt_wfRel.wf)).prod_lex
        Nat.lt_wfRel.wf))

variable {cfg} {rows todo : List HbmTransaction} {r t : TraceReplay} {s : HbmSystem}

theorem Sooner.of_rows (fewer : t.rowsLeft < r.rowsLeft) : Sooner cfg t r := .left _ _ fewer

theorem Sooner.of_events (rows : t.rowsLeft = r.rowsLeft) (nearer : Nearer cfg t.system r.system) :
    Sooner cfg t r := by
  unfold Sooner
  rw [rows]
  exact .right _ (.left _ _ nearer)

theorem Sooner.of_rank (rows : t.rowsLeft = r.rowsLeft)
    (same : left cfg t.system = left cfg r.system)
    (lower : t.rank < r.rank) : Sooner cfg t r := by
  unfold Sooner
  rw [rows, same]
  exact .right _ (.right _ lower)

/-- The replay goes on, or a time beyond 64 bits has stopped it. -/
def Proceeds (cfg : HbmConfig) (rows : List HbmTransaction) (r t : TraceReplay) : Prop :=
  Stopped cfg t ∨ (∃ todo, Underway cfg rows todo t) ∧ Sooner cfg t r

/-! ### Reading -/

/-- Reading the next row, or finding the end of the trace. -/
theorem readLine_proceeds (sorted : rows.Pairwise (·.arrivalTime ≤ ·.arrivalTime))
    (here : r.phase = .reading) (underway : Underway cfg rows todo r) :
    Proceeds cfg rows r r.readLine := by
  obtain ⟨system, lines, number, id, last, changed, phase⟩ := r
  obtain rfl : phase = .reading := here
  obtain ⟨reached, listens, unread, split, later, -⟩ := underway
  refine .inr ?_
  cases lines with
  | nil =>
      refine ⟨⟨todo, reached, listens, unread, split, later, rfl⟩, ?_⟩
      exact .of_rank rfl rfl (show 1 < 6 by decide)
  | cons line rest =>
      rcases parseTrace_cons unread with ⟨skipped, others⟩ | ⟨tx, after, parsed, others, rfl⟩
      · unfold readLine
        simp only [skipped]
        refine ⟨⟨todo, reached, listens, others, split, later, trivial⟩, .of_rows ?_⟩
        exact Nat.add_lt_add_right (Nat.mul_lt_mul_of_pos_left (Nat.lt_succ_self _) (by decide)) _
      · unfold readLine
        simp only [parsed, if_neg (Nat.not_lt.mpr (later tx List.mem_cons_self))]
        refine ⟨⟨after, reached, listens, others, split, fun row mem => ?_, trivial⟩, .of_rows ?_⟩
        · rw [split] at sorted
          have tail := (List.pairwise_append.mp sorted).2.1
          exact (List.pairwise_cons.mp tail).1 row mem
        · show 2 * rest.length + 1 < 2 * (rest.length + 1) + 0
          omega

/-- A row that arrives is waited for or submitted at once. -/
theorem arrive_proceeds {tx : HbmTransaction} (here : r.phase = .arriving tx)
    (underway : Underway cfg rows todo r) : Proceeds cfg rows r (r.advance cfg) := by
  obtain ⟨system, lines, number, id, last, changed, phase⟩ := r
  obtain rfl : phase = .arriving tx := here
  obtain ⟨reached, listens, unread, split, later, -⟩ := underway
  refine .inr ?_
  unfold advance
  dsimp only
  split_ifs with early
  · exact ⟨⟨todo, reached, listens, unread, split, later, early⟩,
      .of_rank rfl rfl (show 4 < 5 by decide)⟩
  · exact ⟨⟨todo, reached, listens, unread, split, later, Nat.le_of_lt (Nat.not_le.mp early), rfl⟩,
      .of_rank rfl rfl (show 2 < 5 by decide)⟩

/-! ### Dispatching -/

/-- No event is due if the first one is not. -/
theorem all_later {events : List (Event EventCallback)} {until_ : Nat}
    (sorted : events.Pairwise Event.before)
    (due : ¬ events.head?.any (·.time ≤ until_) = true) :
    events.all (fun e => until_ < e.time) = true := by
  cases events with
  | nil => rfl
  | cons first rest =>
      have first_later : until_ < first.time := by simpa using due
      apply List.all_eq_true.mpr
      intro e he
      rcases List.mem_cons.mp he with rfl | later
      · exact decide_eq_true first_later
      · have after := (List.pairwise_cons.mp sorted).1 e later
        unfold Event.before at after
        exact decide_eq_true (by omega)

section

variable (off : cfg.Unmaintained) (covered : cfg.Covered)
  (opens : cfg.device.standard = none → cfg.controller.rowPolicy.useAutoPrecharge = false)

/-- An unavoidable exception of the simulation ends the program. -/
theorem stopped_of_unavoidable (covered : cfg.Covered) {e : HbmError}
    (unavoidable : Unavoidable cfg e s) : Stopped cfg ((r.observe s).fail (.thrown e)) := by
  rcases unavoidable with overflow | passed | ⟨-, irregular⟩
  · exact ⟨e, rfl, .inl overflow⟩
  · exact ⟨e, rfl, .inr passed⟩
  · exact absurd covered irregular

include off covered opens

/-- An event is dispatched, or a time beyond 64 bits stops the program. -/
theorem dispatch_observes (reached : Reachable cfg NoEscape r.system)
    (some : r.system.scheduler.events ≠ []) :
    Stopped cfg (r.dispatch cfg) ∨ ∃ s, r.dispatch cfg = r.observe s ∧ Reachable cfg NoEscape s ∧
      perform cfg (.dispatch []) r.system = .ok () s ∧
        Ebbs cfg { r.system with script := [] } s := by
  have silent := dispatch_silent off.unrefreshed opens reached some
  unfold Exits at silent
  unfold dispatch
  cases performed : perform cfg (.dispatch []) r.system with
  | ok _ s =>
      rw [performed] at silent
      exact .inr ⟨s, rfl, silent.1, rfl, silent.2⟩
  | error e s =>
      rw [performed] at silent
      exact .inl (stopped_of_unavoidable covered silent)

/-- A phase in which an event is dispatched and that is not left by it. -/
theorem dispatch_proceeds (underway : Underway cfg rows todo r)
    (some : r.system.scheduler.events ≠ [])
    (established : ∀ s, Reachable cfg NoEscape s → perform cfg (.dispatch []) r.system = .ok () s →
      Ebbs cfg { r.system with script := [] } s → Established cfg (r.observe s)) :
    Proceeds cfg rows r (r.dispatch cfg) := by
  rcases dispatch_observes off covered opens underway.reached some with
    stopped | ⟨s, same, reached, performed, ebbs⟩
  · exact .inl stopped
  · rw [same]
    refine .inr ⟨⟨todo, reached, ?_, underway.unread, ?_, underway.later,
      established s reached performed ebbs⟩, .of_events rfl ebbs.nearer⟩
    · exact ebbs.capacityCallback.trans underway.listens
    · have accepted : acceptedTransactions s.trace = acceptedTransactions r.system.trace :=
        ebbs.accepted
      exact accepted ▸ underway.split

/-- Running up to the arrival dispatches one event or stops at it. -/
theorem runUntil_proceeds {tx : HbmTransaction} (small : tx.arrivalTime < 2 ^ 64)
    (here : r.phase = .runningUntil tx) (underway : Underway cfg rows todo r) :
    Proceeds cfg rows r (r.advance cfg) := by
  obtain ⟨system, lines, number, id, last, changed, phase⟩ := r
  obtain rfl : phase = .runningUntil tx := here
  have before : system.now ≤ tx.arrivalTime := underway.established
  unfold advance
  dsimp only
  by_cases due : system.scheduler.events.head?.any (·.time ≤ tx.arrivalTime) = true
  · rw [if_pos due]
    cases next : system.scheduler.events with
    | nil =>
        rw [next] at due
        cases due
    | cons event rest =>
        rw [next] at due
        refine dispatch_proceeds off covered opens underway (by rw [next]; simp) ?_
        intro s _ performed _
        have clock := dispatch_clock next performed
        show s.now ≤ tx.arrivalTime
        rw [clock]
        simpa using due
  · rw [if_neg due]
    obtain ⟨reached, listens, unread, split, later, -⟩ := underway
    obtain ⟨-, -, d, run, -⟩ := Reachable.settled reached
    have ordered := run.scheduled.ordered
    let moved : HbmSystem :=
      { system with scheduler := { system.scheduler with now := tx.arrivalTime } }
    have nothing := all_later ordered.sorted due
    have exact_ : (UInt64.ofNat tx.arrivalTime).toNat = tx.arrivalTime :=
      UInt64.toNat_ofNat_of_lt' small
    have performed : perform cfg (.advance (.ofNat tx.arrivalTime)) system = .ok () moved := by
      rw [advance_ok (exact_.symm ▸ before) (exact_.symm ▸ nothing), exact_]
    refine .inr ⟨⟨todo, .perform _ reached performed, listens, unread, split, later, ?_, rfl⟩, ?_⟩
    · exact Nat.le_refl _
    · exact .of_rank rfl rfl (show 2 < 4 by decide)

end

/-! ### Submitting -/

/-- An active transaction has been accepted. -/
theorem active_accepted (reached : Reachable cfg NoEscape s) {p : ParentRequest}
    (mem : p ∈ s.parents) : p.transaction ∈ acceptedTransactions s.trace := by
  obtain ⟨checked, -, d, run, -⟩ := reached.settled
  obtain ⟨at_, observed⟩ := (run.accounted checked).family.accepted p mem
  exact List.mem_filterMap.mpr ⟨_, observed, rfl⟩

/-- The submission of a row is a call of the client. -/
theorem trySubmit_performs {tx : HbmTransaction} {Q : SubmitResult → HbmSystem → Prop}
    (answers : Exits (trySubmitNow cfg tx) Q (fun _ _ => True) s) :
    Exits (trySubmit cfg tx)
      (fun result t => perform cfg (.call (.trySubmitNow tx)) s = .ok () t ∧ ∃ u, Q result u ∧
        t = u.observe (.returned result u.systemEvents.length u.now))
      (fun e t => perform cfg (.call (.trySubmitNow tx)) s = .error e t) s := by
  have performed : perform cfg (.call (.trySubmitNow tx)) s = (do
      let result ← trySubmitNow cfg tx
      modify fun s => s.observe (.returned result s.systemEvents.length s.now) : SystemM Unit) s :=
        rfl
  rw [performed]
  unfold trySubmit
  cases run : trySubmitNow cfg tx s with
  | ok result u =>
      have answer := answers.of_ok run
      unfold Exits
      rw [bind_of_ok run, bind_of_ok run]
      exact ⟨rfl, u, answer, rfl⟩
  | error e t =>
      unfold Exits
      rw [bind_of_error run, bind_of_error run]

/-- The rows have different ids, and their fields are in order. -/
structure Rows (rows : List HbmTransaction) : Prop where
  ids : (rows.map (·.id)).Nodup
  named : ∀ row ∈ rows, row.id ≠ 0
  small : ∀ row ∈ rows, row.arrivalTime < 2 ^ 64
  sized : ∀ row ∈ rows, row.sizeBytes ≠ 0
  fits : ∀ row ∈ rows, row.sizeBytes - 1 ≤ maxSimTime - row.address

/-- The next row is submittable: its number is new and its arrival past. -/
theorem Rows.submittable (inOrder : Rows rows) {tx : HbmTransaction}
    (reached : Reachable cfg NoEscape s) (arrived : tx.arrivalTime ≤ s.now)
    (split : rows = (acceptedTransactions s.trace).reverse ++ tx :: todo) : Submittable s tx := by
  have mem : tx ∈ rows := by
    rw [split]
    simp
  refine ⟨inOrder.named tx mem, inOrder.sized tx mem, arrived, ?_, inOrder.fits tx mem⟩
  have ids := inOrder.ids
  rw [split, List.map_append] at ids
  cases found : s.findParent tx.id with
  | none => rfl
  | some p =>
      obtain ⟨active, same⟩ := findParent_some found
      have accepted := List.mem_reverse.mpr (active_accepted reached active)
      have apart := (List.nodup_append.mp ids).2.2 _ (List.mem_map_of_mem accepted)
        _ (List.mem_map_of_mem List.mem_cons_self)
      exact absurd same apart

section

variable (covered : cfg.Covered) (inOrder : Rows rows)

include covered inOrder

/-- A submission is accepted, or refused for want of room. -/
theorem submit_proceeds {tx : HbmTransaction} (here : r.phase = .submitting tx)
    (underway : Underway cfg rows todo r) : Proceeds cfg rows r (r.advance cfg) := by
  obtain ⟨system, lines, number, id, last, changed, phase⟩ := r
  obtain rfl : phase = .submitting tx := here
  obtain ⟨reached, listens, unread, split, later, arrived, unchanged⟩ := underway
  dsimp only at reached listens split arrived unchanged
  have split : rows = (acceptedTransactions system.trace).reverse ++ tx :: todo := split
  have submittable := inOrder.submittable reached arrived split
  obtain ⟨checked, count, -⟩ := reached.settled
  have answers := trySubmit_performs (trySubmitNow_answers checked count submittable)
  unfold Exits at answers
  unfold advance submit
  dsimp only
  cases run : trySubmit cfg tx system with
  | error e t =>
      rw [run] at answers
      exact .inl (stopped_of_unavoidable covered (reached.unavoidable answers))
  | ok result t =>
      rw [run] at answers
      obtain ⟨performed, u, answer, same⟩ := answers
      have reached := reached.perform _ performed
      dsimp only
      cases answer with
      | accepts calm clock =>
          have accepted : acceptedTransactions t.trace =
            tx :: acceptedTransactions system.trace := by
            rw [same]
            exact calm.accepted
          refine .inr ⟨⟨todo, reached, ?_, unread, ?_, later, trivial⟩, .of_rows ?_⟩
          · rw [← listens]
            exact congrArg capacityCallback same |>.trans calm.capacityCallback
          · show rows = (acceptedTransactions t.trace).reverse ++ todo
            rw [accepted, List.reverse_cons, List.append_assoc]
            exact split
          · exact Nat.lt_succ_self _
      | refuses channel refused =>
          have quiet : (changed || decide (notifications system.trace < notifications t.trace)) =
              false := by
            rw [unchanged, same]
            exact decide_eq_false (Nat.lt_irrefl _)
          refine .inr ⟨⟨todo, reached, ?_, unread, ?_, later, ?_, .inr (.inr ?_)⟩,
            .of_rank rfl ?_ ?_⟩
          · rw [same]
            exact listens
          · rw [same]
            exact split
          · rw [same]
            exact arrived
          · rw [same]
            exact refused
          · rw [same]
            rfl
          · unfold rank observe
            dsimp only
            rw [quiet, if_neg Bool.false_ne_true]
            exact Nat.lt_succ_self 1

end

/-! ### Waiting -/

/-- What is refused stays refused while the room is the same. -/
theorem refused_of_room {u : HbmSystem} (same : SameRoom s u) (refused : Refused cfg s) :
    Refused cfg u := by
  rcases refused with crowded | ⟨channel, hchannel, w, full⟩
  · exact .inl (same.parents ▸ crowded)
  · refine .inr ⟨channel, hchannel, w, ?_⟩
    rw [← full]
    exact (same.slots channel).canReserve (cfg.channelConfig channel) _ _

/-- Where nothing is pending a row would not have been refused. -/
theorem pending_of_waiting (reached : Reachable cfg NoEscape s)
    (waits : CapacityPending s ∨ Refused cfg s) : s.scheduler.events ≠ [] := by
  intro none
  rcases waits with ⟨e, he, -⟩ | refused
  · rw [none] at he
    cases he
  · obtain ⟨checked, -, d, run, alive, settled, finishing⟩ := reached.settled
    have quiet : s.systemEvents = [] := by
      unfold systemEvents
      rw [none]
      rfl
    exact not_refused_of_quiet checked run alive settled quiet (.inr finishing) refused

section

variable (off : cfg.Unmaintained) (covered : cfg.Covered)
  (opens : cfg.device.standard = none → cfg.controller.rowPolicy.useAutoPrecharge = false)

include off covered opens

/-- Waiting dispatches an event, and there is one while a transfer is under way. -/
theorem wait_proceeds {tx : HbmTransaction} (here : r.phase = .waiting tx)
    (underway : Underway cfg rows todo r) : Proceeds cfg rows r (r.advance cfg) := by
  obtain ⟨system, lines, number, id, last, changed, phase⟩ := r
  obtain rfl : phase = .waiting tx := here
  obtain ⟨arrived, waits⟩ := underway.established
  dsimp only at arrived waits
  unfold advance
  dsimp only
  cases changed with
  | true =>
      obtain ⟨reached, listens, unread, split, later, -⟩ := underway
      refine .inr ⟨⟨todo, reached, listens, unread, split, later, arrived, rfl⟩, ?_⟩
      exact .of_rank rfl rfl (show 2 < 3 by decide)
  | false =>
      have waits : CapacityPending system ∨ Refused cfg system :=
        waits.resolve_left Bool.false_ne_true
      have pending := pending_of_waiting underway.reached waits
      rw [if_neg Bool.false_ne_true, if_neg (by simpa using pending)]
      refine dispatch_proceeds off covered opens underway pending ?_
      intro s _ performed ebbs
      constructor
      · obtain ⟨event, rest, next⟩ := List.exists_cons_of_ne_nil pending
        obtain ⟨-, -, d, run, -⟩ := Reachable.settled underway.reached
        have future := run.scheduled.ordered.future event (next ▸ List.mem_cons_self)
        have clock := dispatch_clock next performed
        exact Nat.le_trans arrived (Nat.le_trans future (Nat.le_of_eq clock.symm))
      · show (false || decide (notifications system.trace < notifications s.trace)) = true ∨ _
        rw [Bool.false_or, decide_eq_true_iff]
        rcases waits with awaited | refused
        · exact (ebbs.pending underway.listens awaited).imp_right .inl
        · rcases ebbs.room underway.listens with told | awaited | same
          · exact .inl told
          · exact .inr (.inl awaited)
          · exact .inr (.inr (refused_of_room same refused))

/-- After the last row the events are run to the end. -/
theorem finish_proceeds (here : r.phase = .finishing) (underway : Underway cfg rows todo r) :
    Proceeds cfg rows r (r.advance cfg) := by
  obtain ⟨system, lines, number, id, last, changed, phase⟩ := r
  obtain rfl : phase = .finishing := here
  have read : lines = [] := underway.established
  unfold advance
  dsimp only
  by_cases none : system.scheduler.events = []
  · obtain ⟨reached, listens, unread, split, later, -⟩ := underway
    rw [if_pos (List.isEmpty_iff.mpr none)]
    refine .inr ⟨⟨todo, reached, listens, unread, split, later, read, none, rfl⟩, ?_⟩
    exact .of_rank rfl rfl (show 0 < 1 by decide)
  · rw [if_neg (by simpa using none)]
    exact dispatch_proceeds off covered opens underway none fun _ _ _ _ => read

end

/-! ### The whole trace -/

/-- Everything has been accepted and completed once, and `main` has printed the totals. -/
structure Replayed (rows : List HbmTransaction) (r : TraceReplay) : Prop where
  printed : r.phase = .printed (printedTotals r.system.stats)
  accepted : acceptedTransactions r.system.trace = rows.reverse
  once : ∀ ticket tx at_, .accepted ticket tx at_ ∈ r.system.trace →
    r.system.trace.countP (·.completes ticket) = 1
  completed : r.system.stats.completedTransactions = rows.length
  readBytes : r.system.stats.readBytes =
    ((rows.filter fun row => row.op == .read).map (·.sizeBytes)).sum
  writeBytes : r.system.stats.writeBytes =
    ((rows.filter fun row => row.op == .write).map (·.sizeBytes)).sum

/-- What `main` asks of the rows. -/
structure Replayable (rows : List HbmTransaction) : Prop where
  sorted : rows.Pairwise (·.arrivalTime ≤ ·.arrivalTime)
  sized : ∀ row ∈ rows, row.sizeBytes ≠ 0
  fits : ∀ row ∈ rows, row.sizeBytes - 1 ≤ maxSimTime - row.address

/-- The rows of a replayable trace are numbered and sorted. -/
theorem Replayable.inOrder {lines : List (List Char)} (replayable : Replayable rows)
    (parsed : parseTrace 1 lines = .ok rows) : Rows rows := by
  have ids := parseTrace_ids parsed
  constructor
  case ids =>
    rw [ids]
    exact List.nodup_range'
  case named =>
    intro row mem
    have numbered := List.mem_map_of_mem (f := (·.id)) mem
    rw [ids] at numbered
    have positive := (List.mem_range'_1.mp numbered).1
    omega
  case small => exact parseTrace_small parsed
  case sized => exact replayable.sized
  case fits => exact replayable.fits

/-- A counter of a system without active transactions is the sum over the accepted ones. -/
theorem counted_of_idle (k : TransactionCounter) (reached : Reachable cfg NoEscape s)
    (idle : s.parents = []) : k.value s.stats = k.sum (acceptedTransactions s.trace) := by
  obtain ⟨checked, -, d, run, -⟩ := reached.settled
  have totaled : Totaled k s := run.totaled checked k
  unfold Totaled active at totaled
  rw [idle] at totaled
  exact totaled

/-- When `main` prints the totals, nothing is left to do. -/
theorem replayed_of_printed {totals : List (String × Nat)} (here : r.phase = .printed totals)
    (underway : Underway cfg rows todo r) : Replayed rows r := by
  obtain ⟨system, lines, number, id, last, changed, phase⟩ := r
  obtain rfl : phase = .printed totals := here
  obtain ⟨reached, -, unread, split, -, established⟩ := underway
  obtain ⟨read, none, same⟩ := established
  dsimp only at reached unread split read none same
  subst read same
  cases unread
  have split : rows = (acceptedTransactions system.trace).reverse :=
    split.trans (List.append_nil _)
  have quiet : system.systemEvents = [] := by
    unfold systemEvents
    rw [none]
    rfl
  obtain ⟨checked, -, d, run, alive, settled, finishing⟩ := reached.settled
  have idle := parents_of_quiet checked run alive settled quiet finishing
  have counted := fun k => counted_of_idle k reached idle
  have accepted : acceptedTransactions system.trace = rows.reverse := by
    rw [split, List.reverse_reverse]
  constructor
  case printed => rfl
  case accepted => exact accepted
  case once =>
    intro ticket tx at_ mem
    exact completed_of_quiet reached quiet mem
  case completed =>
    refine (counted .completed).trans ?_
    rw [accepted, TransactionCounter.sum_reverse]
    exact TransactionCounter.sum_completed rows
  case readBytes =>
    refine (counted .readBytes).trans ?_
    rw [accepted, TransactionCounter.sum_reverse]
    exact TransactionCounter.sum_readBytes rows
  case writeBytes =>
    refine (counted .writeBytes).trans ?_
    rw [accepted, TransactionCounter.sum_reverse]
    exact TransactionCounter.sum_writeBytes rows

/-- Where `main` starts, the whole trace is still to be read. -/
theorem start_underway (options : CliOptions) {lines : List (List Char)}
    (parsed : parseTrace 1 lines = .ok rows) :
    ∃ r, start options lines = .ok r ∧ Underway options.config rows rows r := by
  have count : options.config.channelCount ≠ 0 := by
    rw [options.channelCount]
    exact Nat.one_ne_zero
  have created : create options.config = .ok (initial options.config) :=
    create_ok.mpr ⟨options.valid, count, rfl⟩
  let system := { initial options.config with
    capacityCallback := true, completionCallback := options.completions }
  have reached : Reachable options.config NoEscape system :=
    .perform (.call (.setCompletionCallback options.completions))
      (.perform (.call (.setCapacityCallback true)) (.create created) rfl) rfl
  refine ⟨{ system, lines }, ?_, reached, rfl, parsed, rfl, fun _ _ => Nat.zero_le _, trivial⟩
  unfold start
  rw [created]
  rfl

/-- One pass of the loop that `main` is in brings it nearer to its end, or it is there. -/
theorem advance_proceeds (options : CliOptions) (replayable : Replayable rows) (inOrder : Rows rows)
    (underway : Underway options.config rows todo r) :
    Proceeds options.config rows r (r.advance options.config) ∨ Replayed rows r := by
  have off := options.unmaintained
  have opens := options.opens
  have covered := options.covered
  cases here : r.phase with
  | reading =>
      refine .inl ?_
      have next := readLine_proceeds replayable.sorted here underway
      unfold advance
      rwa [here]
  | arriving tx => exact .inl (arrive_proceeds here underway)
  | runningUntil tx =>
      refine .inl (runUntil_proceeds off covered opens (inOrder.small tx ?_) here underway)
      rw [underway.split, here]
      simp [MainPhase.row]
  | submitting tx => exact .inl (submit_proceeds covered inOrder here underway)
  | waiting tx => exact .inl (wait_proceeds off covered opens here underway)
  | finishing => exact .inl (finish_proceeds off covered opens here underway)
  | printed totals => exact .inr (replayed_of_printed here underway)
  | failed e =>
      have impossible := underway.established
      unfold Established at impossible
      rw [here] at impossible
      exact impossible.elim

/-- The replay ends with all rows accepted and completed once, or a time beyond 64 bits stops
it. -/
theorem replay_ends (options : CliOptions) (replayable : Replayable rows) (inOrder : Rows rows)
    (underway : Underway options.config rows todo r) :
    ∃ n, Replayed rows ((advance options.config)^[n] r) ∨
      Stopped options.config ((advance options.config)^[n] r) := by
  refine @exists_iterate TraceReplay (advance options.config)
    (fun r => ∃ todo, Underway options.config rows todo r)
    (fun r => Replayed rows r ∨ Stopped options.config r) _ (sooner_wf options.config) ?_ _
    ⟨todo, underway⟩
  rintro r ⟨todo, underway⟩
  rcases advance_proceeds options replayable inOrder underway with
    (stopped | ⟨more, sooner⟩) | replayed
  · exact .inr (.inl (.inr stopped))
  · exact .inr (.inr ⟨more, sooner⟩)
  · exact .inl (.inl replayed)

/-- Whatever the options, the replay of a trace ends with all its rows accepted and completed
once, unless a time beyond 64 bits stops it. -/
theorem replay_complete (options : CliOptions) {lines : List (List Char)}
    {rows : List HbmTransaction} (parsed : parseTrace 1 lines = .ok rows)
    (replayable : Replayable rows) :
    ∃ r, start options lines = .ok r ∧ ∃ n, Replayed rows ((advance options.config)^[n] r) ∨
      Stopped options.config ((advance options.config)^[n] r) := by
  obtain ⟨r, started, underway⟩ := start_underway options parsed
  exact ⟨r, started, replay_ends options replayable (replayable.inOrder parsed) underway⟩

/-- The rows of the test of the program, with queues of one slot. -/
theorem replay_complete_bounded : ∃ lines rows, rows.length = 5 ∧ parseTrace 1 lines = .ok rows ∧
    ∃ r, start ⟨.hbm2_2000, some 1, true⟩ lines = .ok r ∧
      ∃ n, Replayed rows ((advance (CliOptions.config ⟨.hbm2_2000, some 1, true⟩))^[n] r) ∨
        Stopped (CliOptions.config ⟨.hbm2_2000, some 1, true⟩)
          ((advance (CliOptions.config ⟨.hbm2_2000, some 1, true⟩))^[n] r) := by
  let lines := ["0,WRITE,0,16384".toList, "1,READ,0,4096".toList, "2,WRITE,4096,4096".toList,
    "2,READ,8192,64".toList, "3,READ,16384,32".toList]
  have parsed : parseTrace 1 lines = .ok
      [{ HbmTransaction.write 1 0 16384 with arrivalTime := 0 },
        { HbmTransaction.read 2 0 4096 with arrivalTime := 1 },
        { HbmTransaction.write 3 4096 4096 with arrivalTime := 2 },
        { HbmTransaction.read 4 8192 64 with arrivalTime := 2 },
        { HbmTransaction.read 5 16384 32 with arrivalTime := 3 }] := rfl
  exact ⟨lines, _, rfl, parsed, replay_complete ⟨.hbm2_2000, some 1, true⟩ parsed
    ⟨by decide, by decide, by decide⟩⟩

/-! ### The program -/

/-- `main` ends, and at no pass of its loops it fails for another reason than a time beyond 64
bits. -/
structure LosesNothing (cfg : HbmConfig) (rows : List HbmTransaction) (r : TraceReplay) : Prop where
  fails : ∀ n e, ((advance cfg)^[n] r).phase = .failed e → Stopped cfg ((advance cfg)^[n] r)
  waits : ∀ n, ((advance cfg)^[n] r).phase ≠
    .failed (.runtimeError "backpressure without a future capacity event")
  ends : ∃ n, Replayed rows ((advance cfg)^[n] r) ∨ Stopped cfg ((advance cfg)^[n] r)

/-- What has printed its totals or failed stays as it is. -/
theorem advance_printed (replayed : Replayed rows r) : r.advance cfg = r := by
  unfold advance
  rw [replayed.printed]

/-- A stopped replay stays where it is. -/
theorem advance_stopped (stopped : Stopped cfg r) : r.advance cfg = r := by
  obtain ⟨e, failed, -⟩ := stopped
  unfold advance
  rw [failed]

/-- At every pass `main` is underway, or a time beyond 64 bits has stopped it. -/
theorem underway_iterate (options : CliOptions) (replayable : Replayable rows) (inOrder : Rows rows)
    (underway : Underway options.config rows todo r) (n : Nat) :
    (∃ todo, Underway options.config rows todo ((advance options.config)^[n] r)) ∨
      Stopped options.config ((advance options.config)^[n] r) := by
  induction n with
  | zero => exact .inl ⟨todo, underway⟩
  | succ n ih =>
      rw [Function.iterate_succ_apply']
      rcases ih with ⟨todo, underway⟩ | stopped
      · rcases advance_proceeds options replayable inOrder underway with
          (stopped | ⟨more, -⟩) | replayed
        · exact .inr stopped
        · exact .inl more
        · rw [advance_printed replayed]
          exact .inl ⟨todo, underway⟩
      · rw [advance_stopped stopped]
        exact .inr stopped

/-- A replay under way has not failed. -/
theorem Underway.not_failed (underway : Underway cfg rows todo r) (e : ReplayError) :
    r.phase ≠ .failed e := by
  intro failed
  have established := underway.established
  unfold Established at established
  rw [failed] at established
  exact established

/-- Whatever options the arguments name, `main` accepts every row of a trace once, completes it
once and prints its totals, unless a time beyond 64 bits stops it. It never waits for a capacity
event that does not come. -/
theorem main_loses_nothing {arguments : List (List Char)} {options : CliOptions}
    (named : parseArguments arguments = .ok options) {lines : List (List Char)}
    {rows : List HbmTransaction} (parsed : parseTrace 1 lines = .ok rows)
    (replayable : Replayable rows) :
    ∃ r, begin arguments lines = .ok (options.config, r) ∧ LosesNothing options.config rows r := by
  obtain ⟨r, started, underway⟩ := start_underway options parsed
  have inOrder := replayable.inOrder parsed
  have stops : ∀ n e, ((advance options.config)^[n] r).phase = .failed e →
      Stopped options.config ((advance options.config)^[n] r) := by
    intro n e failed
    rcases underway_iterate options replayable inOrder underway n with ⟨todo, underway⟩ | stopped
    · exact absurd failed (underway.not_failed e)
    · exact stopped
  refine ⟨r, ?_, stops, fun n failed => ?_, replay_ends options replayable inOrder underway⟩
  · unfold begin
    rw [named]
    dsimp only
    rw [started]
  · obtain ⟨e, thrown, -⟩ := stops n _ failed
    rw [failed] at thrown
    cases thrown

/-- The rows of the test of the program, as its command line names the options. -/
theorem main_loses_nothing_bounded : ∃ lines rows, rows.length = 5 ∧
    parseTrace 1 lines = .ok rows ∧ ∃ r, begin ["trace.csv".toList, "--profile".toList,
      "hbm2_2000".toList, "--queue-capacity".toList, "1".toList] lines =
        .ok (CliOptions.config ⟨.hbm2_2000, some 1, false⟩, r) ∧
      LosesNothing (CliOptions.config ⟨.hbm2_2000, some 1, false⟩) rows r := by
  let lines := ["0,WRITE,0,16384".toList, "1,READ,0,4096".toList, "2,WRITE,4096,4096".toList,
    "2,READ,8192,64".toList, "3,READ,16384,32".toList]
  have parsed : parseTrace 1 lines = .ok
      [{ HbmTransaction.write 1 0 16384 with arrivalTime := 0 },
        { HbmTransaction.read 2 0 4096 with arrivalTime := 1 },
        { HbmTransaction.write 3 4096 4096 with arrivalTime := 2 },
        { HbmTransaction.read 4 8192 64 with arrivalTime := 2 },
        { HbmTransaction.read 5 16384 32 with arrivalTime := 3 }] := rfl
  exact ⟨lines, _, rfl, parsed, main_loses_nothing rfl parsed ⟨by decide, by decide, by decide⟩⟩

end TraceReplay

end HbmSim
