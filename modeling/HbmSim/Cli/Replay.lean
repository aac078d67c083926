import HbmSim.Cli.Parsing
import HbmSim.System.Draining

/-!
The command line program (`main.cpp`).

`main` reads the trace line by line, lets the simulation run until a row arrives and submits it;
a row that finds no room is submitted again each time the capacity callback has set its flag.
`advance` is one pass of whichever of its loops `main` is in, or what comes between two of them.
-/

namespace HbmSim

open HbmSim.Lib

/-! ### Options -/

/-- The devices `--profile` names, and the default configuration. -/
inductive CliProfile where
  | default | hbm2_2000 | hbm3_6400
deriving DecidableEq, Repr

def CliProfile.config : CliProfile → HbmConfig
  | .default => {}
  | .hbm2_2000 => .hbm2_2000
  | .hbm3_6400 => .hbm3_6400

/-- What the options ask for. `--completions` asks for a completion callback, which writes its
argument to a file. -/
structure CliOptions where
  profile : CliProfile := .default
  queueCapacity : Option Nat := none
  completions : Bool := false
deriving DecidableEq, Repr

/-- The program ends with status 2 before it has read the trace, or by an exception. -/
inductive UsageError where
  | missingTrace
  | missingValue (option : List Char)
  | unknownProfile (value : List Char)
  | unknownOption (option : List Char)
  | thrown (e : HbmError)
deriving DecidableEq, Repr

/-- The loop over the options behind the name of the trace. -/
def parseOptions (options : CliOptions) : List (List Char) → Except UsageError CliOptions
  | [] => .ok options
  | [option] => .error (.missingValue option)
  | option :: value :: rest =>
      if option = "--completions".toList then
        parseOptions { options with completions := !value.isEmpty } rest
      else if option = "--queue-capacity".toList then
        match parseU64 value with
        | .ok capacity => parseOptions { options with queueCapacity := some capacity } rest
        | .error e => .error (.thrown e)
      else if option = "--profile".toList then
        if value = "hbm2_2000".toList then parseOptions { options with profile := .hbm2_2000 } rest
        else if value = "hbm3_6400".toList then
          parseOptions { options with profile := .hbm3_6400 } rest
        else .error (.unknownProfile value)
      else .error (.unknownOption option)

/-- The arguments of the program: the trace, and its options. -/
def parseArguments : List (List Char) → Except UsageError CliOptions
  | [] => .error .missingTrace
  | _ :: rest => parseOptions {} rest

/-- The configuration the options ask for. The queue capacity is set last. -/
def CliOptions.config (options : CliOptions) : HbmConfig :=
  match options.queueCapacity with
  | none => options.profile.config
  | some capacity =>
      { options.profile.config with
        controller := { options.profile.config.controller with
          readQueueCapacity := capacity
          writeQueueCapacity := capacity } }

/-! ### Replay -/

/-- The totals `main` prints. -/
def printedTotals (stats : HbmStats) : List (String × Nat) :=
  [("completed_transactions", stats.completedTransactions),
    ("modeled_accesses", stats.modeledAccesses),
    ("physical_accesses", stats.physicalAccesses),
    ("physical_read_bytes", stats.physicalReadBytes),
    ("physical_write_bytes", stats.physicalWriteBytes),
    ("issued_commands", stats.issuedCommands),
    ("read_bytes", stats.readBytes),
    ("write_bytes", stats.writeBytes),
    ("row_hits", stats.rowHits),
    ("row_closed", stats.rowClosed),
    ("row_conflicts", stats.rowConflicts),
    ("act_commands", stats.actCommands),
    ("pre_commands", stats.preCommands),
    ("read_commands", stats.readCommands),
    ("write_commands", stats.writeCommands),
    ("rejected_transactions", stats.rejectedTransactions),
    ("rfm_events", stats.rfmEvents)]

/-- Where `main` is. -/
inductive MainPhase where
  /-- Before the next `std::getline`. -/
  | reading
  /-- A row is read, and its arrival compared with `events.now()`. -/
  | arriving (transaction : HbmTransaction)
  /-- In the loop of `events.run_until`. -/
  | runningUntil (transaction : HbmTransaction)
  /-- Before `system.try_submit_now`, the flag just reset. -/
  | submitting (transaction : HbmTransaction)
  /-- In `while (!capacity_changed)`. -/
  | waiting (transaction : HbmTransaction)
  /-- In the loop of the final `events.run()`. -/
  | finishing
  | printed (totals : List (String × Nat))
  | failed (e : ReplayError)
deriving DecidableEq, Repr

/-- The local variables of `main`. -/
structure TraceReplay where
  system : HbmSystem
  /-- The lines of the trace that are not read yet. -/
  lines : List (List Char)
  lineNumber : Nat := 0
  id : Nat := 1
  lastArrival : Nat := 0
  capacityChanged : Bool := false
  phase : MainPhase := .reading

namespace TraceReplay

variable (cfg : HbmConfig)

/-- `main` when it has set the callbacks. -/
def start (options : CliOptions) (lines : List (List Char)) : Except HbmError TraceReplay := do
  let system ← HbmSystem.create options.config
  return {
    system := { system with capacityCallback := true, completionCallback := options.completions }
    lines }

/-- `main` up to its loop over the lines: the options and the system they ask for. -/
def begin (arguments lines : List (List Char)) : Except UsageError (HbmConfig × TraceReplay) :=
  match parseArguments arguments with
  | .error e => .error e
  | .ok options =>
      match start options lines with
      | .error e => .error (.thrown e)
      | .ok r => .ok (options.config, r)

/-- The system goes on, and a call of the capacity callback sets the flag. -/
def observe (r : TraceReplay) (system : HbmSystem) : TraceReplay :=
  { r with
    system
    capacityChanged := r.capacityChanged ||
      decide (notifications r.system.trace < notifications system.trace) }

def fail (r : TraceReplay) (e : ReplayError) : TraceReplay := { r with phase := .failed e }

/-- The next event is dispatched. The callbacks make no calls. -/
def dispatch (r : TraceReplay) : TraceReplay :=
  match HbmSystem.perform cfg (.dispatch []) r.system with
  | .ok _ system => r.observe system
  | .error e system => (r.observe system).fail (.thrown e)

/-- `std::getline` and what follows it in the body of the loop. -/
def readLine (r : TraceReplay) : TraceReplay :=
  match r.lines with
  | [] => { r with phase := .finishing }
  | line :: rest =>
      let r := { r with lines := rest, lineNumber := r.lineNumber + 1 }
      match parseLine r.id line with
      | .error e => r.fail e
      | .ok none => r
      | .ok (some transaction) =>
          if transaction.arrivalTime < r.lastArrival then
            r.fail (.runtimeError "trace arrivals must be nondecreasing")
          else
            { r with
              id := r.id + 1
              lastArrival := transaction.arrivalTime
              phase := .arriving transaction }

/-- A submission of the client's, whose result is looked at. -/
def trySubmit (transaction : HbmTransaction) : SystemM SubmitResult := do
  let result ← HbmSystem.trySubmitNow cfg transaction
  modify fun s => s.observe (.returned result s.systemEvents.length s.now)
  return result

/-- `try_submit_now`, and what its result leads to. -/
def submit (r : TraceReplay) (transaction : HbmTransaction) : TraceReplay :=
  match trySubmit cfg transaction r.system with
  | .error e system => (r.observe system).fail (.thrown e)
  | .ok result system =>
      match result.status with
      | .accepted => { r.observe system with phase := .reading }
      | .backpressure => { r.observe system with phase := .waiting transaction }
      | _ => (r.observe system).fail (.runtimeError result.message)

/-- One pass of the loop `main` is in. -/
def advance (r : TraceReplay) : TraceReplay :=
  match r.phase with
  | .reading => r.readLine
  | .arriving transaction =>
      if r.system.now ≤ transaction.arrivalTime then
        { r with phase := .runningUntil transaction }
      else { r with capacityChanged := false, phase := .submitting transaction }
  | .runningUntil transaction =>
      if r.system.scheduler.events.head?.any (·.time ≤ transaction.arrivalTime) then r.dispatch cfg
      else
        { r with
          system := { r.system with
            scheduler := { r.system.scheduler with now := transaction.arrivalTime } }
          capacityChanged := false
          phase := .submitting transaction }
  | .submitting transaction => r.submit cfg transaction
  | .waiting transaction =>
      if r.capacityChanged then { r with capacityChanged := false, phase := .submitting transaction }
      else if r.system.scheduler.events.isEmpty then
        r.fail (.runtimeError "backpressure without a future capacity event")
      else r.dispatch cfg
  | .finishing =>
      if r.system.scheduler.events.isEmpty then
        { r with phase := .printed (printedTotals r.system.stats) }
      else r.dispatch cfg
  | .printed _ => r
  | .failed _ => r

end TraceReplay

/-- The transactions of a trace, numbered from `id`. -/
def parseTrace (id : Nat) : List (List Char) → Except ReplayError (List HbmTransaction)
  | [] => .ok []
  | line :: rest => do
      match ← parseLine id line with
      | none => parseTrace id rest
      | some transaction => return transaction :: (← parseTrace (id + 1) rest)

end HbmSim
