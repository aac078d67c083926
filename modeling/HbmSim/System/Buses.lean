import HbmSim.Lib.Reservations
import HbmSim.System.Record

/-!
The command buses of a channel.

Commands on one bus keep their durations apart, whatever path recorded them, unless a
sum of times has left 64 bits. The busy times of the statistics are the sums of these
durations.
-/

namespace HbmSim

open HbmSim.Lib HbmSystem

/-- Two commands, the later one first: on one bus the later waits for the earlier. -/
def Apart (config : HbmControllerConfig) (r e : RecordedCommand) : Prop :=
  config.commandBus e.command = config.commandBus r.command →
    e.issuedAt + config.commandDuration e.command ≤ r.issuedAt

/-- The commands recorded so far are apart, and each bus is ready after the last one. -/
structure BusesApart (config : HbmControllerConfig) (c : HbmController) : Prop where
  apart : c.recorded.Pairwise (Apart config)
  ready : ∀ e ∈ c.recorded,
    e.issuedAt + config.commandDuration e.command ≤ c.commandBusReady config e.command

/-- When a command bus is ready. -/
def HbmController.busReadyAt (c : HbmController) : CommandBus → Nat
  | .unified => c.unifiedCommandBusReadyAt
  | .row => c.rowCommandBusReadyAt
  | .column => c.columnCommandBusReadyAt

/-- What a bus statistic says of the commands it counts. -/
def busTally (config : HbmControllerConfig) (commands : List RecordedCommand) : ResourceStats :=
  { busyTime := (commands.map fun r => config.commandDuration r.command).sum
    issuedCommands := commands.length }

/-- The recorded commands on one bus. -/
def recordedOn (config : HbmControllerConfig) (bus : CommandBus) (recorded : List RecordedCommand) :
    List RecordedCommand :=
  recorded.filter fun r => config.commandBus r.command = bus

/-- The bus statistics of a channel count its recorded commands. -/
structure BusesCounted (config : HbmControllerConfig) (recorded : List RecordedCommand)
    (stats : ChannelStats) : Prop where
  commandBus : stats.commandBus = busTally config recorded
  rowBus : stats.rowCommandBus = busTally config (recordedOn config .row recorded)
  columnBus : stats.columnCommandBus = busTally config (recordedOn config .column recorded)

section

open HbmController

variable {config : HbmControllerConfig} {mapper : HbmAddressMapper} {s t : ControllerState}
  {now : Nat} {exempt : Prop} {c c' : HbmController} {r : RecordedCommand}

/-! ### Command buses -/

/-- Commands that keep apart are reservations of their buses. -/
theorem busesApart_iff : BusesApart config c ↔
    Booked (fun r : RecordedCommand => config.commandBus r.command) RecordedCommand.issuedAt
      (fun r => r.issuedAt + config.commandDuration r.command) c.busReadyAt c.recorded :=
  ⟨fun h => ⟨h.apart, h.ready⟩, fun h => ⟨h.apart, h.ready⟩⟩

/-- The time a bus is free is read off the record. -/
theorem HbmController.SameRecord.busReadyAt (h : SameRecord c c') :
    c'.busReadyAt = c.busReadyAt := by
  funext bus
  cases bus
  · exact h.unified
  · exact h.row
  · exact h.column

/-- A stamped command takes its bus for its duration. -/
theorem stampCommand_busReadyAt (c : HbmController) (r : RecordedCommand) (bus : CommandBus) :
    (c.stampCommand config r).busReadyAt bus =
      if bus = config.commandBus r.command then
        SimTime.add r.issuedAt (config.commandDuration r.command)
      else c.busReadyAt bus := by
  cases bus <;> cases hr : config.commandBus r.command <;> simp [busReadyAt, stampCommand, hr]

theorem BusesApart.frame (h : BusesApart config c) (same : SameRecord c c') :
    BusesApart config c' := by
  rw [busesApart_iff] at h ⊢
  rw [same.busReadyAt, same.recorded]
  exact h

/-- A command that waited for its bus overlaps none before it. -/
theorem BusesApart.stamp (h : BusesApart config c)
    (waits : c.commandBusReady config r.command ≤ r.issuedAt)
    (fits : r.issuedAt + config.commandDuration r.command < 2 ^ 64) :
    BusesApart config (c.stampCommand config r) := by
  rw [busesApart_iff] at h ⊢
  refine h.reserve waits (Nat.le_add_right _ _) ?_ fun bus other => ?_
  · rw [stampCommand_busReadyAt, if_pos rfl, SimTime.add_of_lt fits]
  · rw [stampCommand_busReadyAt, if_neg other]

/-- An unwrapped stamp ends in time. -/
theorem stampCommand_wrapped {c : HbmController} {r : RecordedCommand}
    (fits : (c.stampCommand config r).wrapped = false) :
    c.wrapped = false ∧ r.issuedAt + config.commandDuration r.command < 2 ^ 64 := by
  have parts : (c.wrapped ||
      decide (2 ^ 64 ≤ r.issuedAt + config.commandDuration r.command)) = false := fits
  obtain ⟨before, sum⟩ := Bool.or_eq_false_iff.mp parts
  exact ⟨before, Nat.not_le.mp (of_decide_eq_false sum)⟩

/-- Every recorded command waited for its bus. -/
theorem HbmController.Records.waits (h : Records config mapper s t r) :
    s.ctl.commandBusReady config r.command ≤ r.issuedAt := by
  obtain ⟨cursor, ready, -, ready_le, query⟩ := h.ready
  exact Nat.le_trans (earliestCommand_ok query).2.1 ready_le

/-- One command more keeps the reservations apart. -/
theorem BusesApart.records (h : s.ctl.wrapped = true ∨ BusesApart config s.ctl)
    (records : Records config mapper s t r) : t.ctl.wrapped = true ∨ BusesApart config t.ctl := by
  by_cases wraps : t.ctl.wrapped = true
  · exact .inl wraps
  have stamped : (s.ctl.stampCommand config r).wrapped = false := by
    simpa using mt records.wrapped wraps
  obtain ⟨before, fits⟩ := stampCommand_wrapped stamped
  have apart := h.resolve_left (by simp [before])
  exact .inr ((apart.stamp records.waits fits).frame records.record)

/-- So does one entry of the record. -/
theorem BusesApart.entry (h : s.ctl.wrapped = true ∨ BusesApart config s.ctl)
    (entry : Entry config mapper now exempt s t) :
    t.ctl.wrapped = true ∨ BusesApart config t.ctl := by
  cases entry with
  | silent record _ _ _ wrapped => exact h.imp (wrapped ▸ ·) (·.frame record)
  | raise due _ _ _ after =>
      rw [after]
      have same : SameRecord s.ctl (s.ctl.raise config due) := by
        rw [raise_frame]
        exact ⟨rfl, rfl, rfl, rfl, rfl⟩
      refine h.imp (fun wraps => ?_) (·.frame same)
      show (s.ctl.raise config due).wrapped = true
      rw [raise_frame]
      exact wraps
  | advance base _ _ _ after =>
      rw [after]
      refine h.imp (fun wraps => ?_) (·.frame ⟨rfl, rfl, rfl, rfl, rfl⟩)
      exact (congrArg (· || _) wraps).trans rfl
  | maintain _ records => exact BusesApart.records h records
  | demand _ records => exact BusesApart.records h records

/-- In every run the command reservations of a channel are apart. -/
theorem HbmSystem.Run.busesApart {cfg : HbmConfig} (checked : cfg.Checked)
    {p : HbmSystem × Debts} (run : Run cfg p) (channel : Nat) :
    (p.1.controllers channel).wrapped = true ∨
      BusesApart (cfg.channelConfig channel) (p.1.controllers channel) :=
  run.entries checked channel
    (P := fun _ _ s => s.ctl.wrapped = true ∨ BusesApart (cfg.channelConfig channel) s.ctl)
    (.inr ⟨.nil, nofun⟩) (fun _ _ h => h) fun _ h entry => BusesApart.entry h entry

/-! ### Command bus statistics -/

theorem busTally_cons (r : RecordedCommand) (rest : List RecordedCommand) :
    busTally config (r :: rest) = ResourceStats.addCommand (busTally config rest)
      (config.commandDuration r.command) := by
  unfold busTally ResourceStats.addCommand
  simp [Nat.add_comm]

theorem recordedOn_cons (bus : CommandBus) (r : RecordedCommand) (rest : List RecordedCommand) :
    busTally config (recordedOn config bus (r :: rest)) =
      if config.commandBus r.command = bus then
        ResourceStats.addCommand (busTally config (recordedOn config bus rest))
          (config.commandDuration r.command)
      else busTally config (recordedOn config bus rest) := by
  unfold recordedOn
  by_cases same : config.commandBus r.command = bus
  · rw [List.filter_cons_of_pos (by simpa using same), if_pos same, busTally_cons]
  · rw [List.filter_cons_of_neg (by simpa using same), if_neg same]

/-- Every entry of the record is counted. -/
theorem BusesCounted.entry
    (h : BusesCounted config s.ctl.recorded (s.stats.channels config.channel))
    (entry : Entry config mapper now exempt s t) :
    BusesCounted config t.ctl.recorded (t.stats.channels config.channel) := by
  have counted : ∀ {r : RecordedCommand}, Records config mapper s t r →
      BusesCounted config t.ctl.recorded (t.stats.channels config.channel) := by
    intro r records
    have recorded : t.ctl.recorded = r :: s.ctl.recorded := records.record.recorded
    have buses := records.buses
    rw [recorded]
    constructor
    case commandBus =>
      rw [buses.commandBus, busTally_cons, ← h.commandBus]
      rfl
    case rowBus =>
      rw [buses.rowBus, recordedOn_cons, ← h.rowBus]
      rfl
    case columnBus =>
      rw [buses.columnBus, recordedOn_cons, ← h.columnBus]
      rfl
  cases entry with
  | silent record _ _ _ _ traffic =>
      rw [record.recorded]
      exact ⟨traffic.commandBus.trans h.commandBus, traffic.rowBus.trans h.rowBus,
        traffic.columnBus.trans h.columnBus⟩
  | raise due _ _ _ after =>
      rw [after]
      show BusesCounted config (s.ctl.raise config due).recorded _
      rw [raise_frame]
      exact h
  | advance base _ _ _ after =>
      rw [after]
      exact h
  | maintain _ records => exact counted records
  | demand _ records => exact counted records

/-- In every run the bus statistics are those of the record. -/
theorem HbmSystem.Run.busesCounted {cfg : HbmConfig} (checked : cfg.Checked)
    {p : HbmSystem × Debts} (run : Run cfg p) (channel : Nat) :
    BusesCounted (cfg.channelConfig channel) (p.1.controllers channel).recorded
      (p.1.stats.channels channel) := by
  refine run.entries checked channel (P := fun _ _ s => BusesCounted (cfg.channelConfig channel)
    s.ctl.recorded (s.stats.channels channel)) ?_ (fun _ _ h => h) fun _ h entry => h.entry entry
  show BusesCounted _ [] (initialChannelStats cfg)
  unfold initialChannelStats
  split <;> exact ⟨rfl, rfl, rfl⟩

end

end HbmSim
