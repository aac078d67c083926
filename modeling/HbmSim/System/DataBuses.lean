import Mathlib.Algebra.Order.Floor.Div
import HbmSim.System.Buses

/-!
The data buses of a channel.

Only a data command reserves a data bus. It starts once its CAS latency has passed and the
bus of its pseudo-channel is ready, and moves the ready time of that bus to its end, in
whatever order the data commands issue.
-/

namespace HbmSim

open HbmSim.Lib HbmSystem

/-- What a transfer waits for, and how long it holds its bus. -/
structure Timed (config : HbmControllerConfig) (x : DataTransfer) : Prop where
  waits : x.issuedAt + HbmController.casLatency config x.isWrite ≤ x.dataStart
  holds : ∃ duration, config.dataRate.transferTime x.bytes = .ok duration ∧
    x.completion = x.dataStart + duration

/-- The transfers of each data bus come one after the other, each in its time. -/
structure DataBuses (config : HbmControllerConfig) (c : HbmController) : Prop where
  booked : Booked DataTransfer.pseudoChannel DataTransfer.dataStart DataTransfer.completion
    (fun p => c.dataBusReadyAt[p]?.getD 0) c.transfers
  timed : ∀ x ∈ c.transfers, Timed config x

/-- How long the transfers held their buses, all together. -/
def busTime (transfers : List DataTransfer) : Nat :=
  (transfers.map fun x => x.completion - x.dataStart).sum

/-- What holds of the data buses while no sum of times has left 64 bits. -/
structure DataCounted (config : HbmControllerConfig) (s : ControllerState) : Prop where
  buses : DataBuses config s.ctl
  busy : (s.stats.channels config.channel).dataBusBusyTime = busTime s.ctl.transfers

namespace HbmController

variable {config : HbmControllerConfig} {mapper : HbmAddressMapper} {s t : ControllerState}
  {now : Nat} {exempt : Prop} {c c' : HbmController}

/-! ### What a beat does to the data buses -/

/-- What a beat does to the data buses of a channel. -/
inductive Reservation (config : HbmControllerConfig) (s t : ControllerState) : Prop
  | none (data : SameData s.ctl t.ctl) (wrapped : s.ctl.wrapped = true → t.ctl.wrapped = true)
      (busy : (t.stats.channels config.channel).dataBusBusyTime =
        (s.stats.channels config.channel).dataBusBusyTime)
  | some (x : DataTransfer) (slot : DataSlot)
      (issued : slot.issuedAt = x.issuedAt)
      (latency : slot.casLatency = casLatency config x.isWrite)
      (ready : s.ctl.dataBusReadyAt[x.pseudoChannel]? = some slot.busReady)
      (duration : config.dataRate.transferTime x.bytes = .ok slot.duration)
      (dataStart : x.dataStart = slot.dataStart) (completion : x.completion = slot.completion)
      (bus : t.ctl.dataBusReadyAt = s.ctl.dataBusReadyAt.set x.pseudoChannel x.completion)
      (transfers : t.ctl.transfers = x :: s.ctl.transfers)
      (wrapped : t.ctl.wrapped = false → s.ctl.wrapped = false ∧
        slot.issuedAt + slot.casLatency < 2 ^ 64 ∧ slot.dataStart + slot.duration < 2 ^ 64)
      (busy : (t.stats.channels config.channel).dataBusBusyTime =
        (s.stats.channels config.channel).dataBusBusyTime + slot.duration)

/-- An unwrapped sum fits. -/
theorem noteSum_wrapped {a b : Nat} (fits : (c.noteSum a b).wrapped = false) :
    c.wrapped = false ∧ a + b < 2 ^ 64 := by
  have parts : (c.wrapped || decide (2 ^ 64 ≤ a + b)) = false := fits
  obtain ⟨before, sum⟩ := Bool.or_eq_false_iff.mp parts
  exact ⟨before, Nat.not_le.mp (of_decide_eq_false sum)⟩

/-! ### Statistics -/

theorem countStarts_busy (stats : HbmStats) (items : List HbmAccess) (at_ ch : Nat) :
    ((countStarts config stats items at_).channels ch).dataBusBusyTime =
      (stats.channels ch).dataBusBusyTime :=
  (countStarts_traffic config stats items at_ ch).dataBus

theorem countCommand_busy (stats : HbmStats) (r : RecordedCommand) :
    ((countCommand config stats r).channels config.channel).dataBusBusyTime =
      (stats.channels config.channel).dataBusBusyTime := by
  rw [countCommand_channels, HbmStats.modifyChannel_self]
  rfl

theorem countMaintenance_busy (stats : HbmStats) (requested : HbmCommand) :
    ((countMaintenance config stats requested).channels config.channel).dataBusBusyTime =
      (stats.channels config.channel).dataBusBusyTime := by
  unfold countMaintenance
  split
  case h_5 => rfl
  all_goals
    unfold HbmStats.modifyChannel
    dsimp only
    rw [if_pos rfl]

theorem countTransfer_busy (stats : HbmStats) (items : List HbmAccess) (address : HbmAddress)
    (bankIndex : Nat) (slot : DataSlot) :
    ((countTransfer config stats items address bankIndex slot).channels
        config.channel).dataBusBusyTime =
      (stats.channels config.channel).dataBusBusyTime + slot.duration := by
  unfold countTransfer
  rw [HbmStats.modifyChannel_self]
  dsimp only
  split <;> rfl

theorem modifyQueue_busy (stats : HbmStats) (channel ch : Nat) (f : QueueStats → QueueStats) :
    ((stats.modifyQueue channel f).channels ch).dataBusBusyTime =
      (stats.channels ch).dataBusBusyTime :=
  (SameTraffic.modifyQueue stats channel ch f).dataBus

/-! ### Reservations of the steps -/

/-- Maintenance reserves nothing. -/
theorem MaintenanceStep.reservation {candidate : MaintenanceCandidate} {time : Nat}
    (step : MaintenanceStep config mapper now s candidate time t) : Reservation config s t := by
  refine .none ?_ step.wrapped ?_
  · rw [step.frame]
    exact ⟨rfl, rfl⟩
  · cases step with
    | mk =>
        unfold maintained
        dsimp only
        split
        · exact (countMaintenance_busy _ _).trans (countCommand_busy _ _)
        · exact countCommand_busy _ _

/-- A row command reserves nothing. -/
theorem RowStep.reservation (step : RowStep config mapper now s t) : Reservation config s t := by
  refine .none ?_ step.wrapped ?_
  · rw [step.frame]
    exact ⟨rfl, rfl⟩
  · cases step with
    | activate => rw [activatedState_stats, countCommand_busy, countStarts_busy]
    | precharge => rw [prechargedState_stats, countCommand_busy, countStarts_busy]

/-- No step but a transfer reserves. -/
theorem ControllerStep.reservation (step : ControllerStep config mapper now s t) :
    Reservation config s t := by
  cases step with
  | retouch touched =>
      obtain ⟨f, -, hf⟩ := touched.stats
      refine .none ?_ (fun wraps => ?_) ?_
      · rw [touched.ctl]
        exact ⟨rfl, rfl⟩
      · rw [touched.ctl]
        exact wraps
      · rw [hf, modifyQueue_busy]
  | raise due =>
      have frame : (s.modifyCtl (·.raise config due)).ctl = s.ctl.raise config due := rfl
      refine .none ?_ (fun wraps => ?_) rfl
      · rw [frame, raise_frame]
        exact ⟨rfl, rfl⟩
      · rw [frame, raise_frame]
        exact wraps
  | advanceDue base =>
      exact .none ⟨rfl, rfl⟩ (fun wraps => (congrArg (· || _) wraps).trans (Bool.true_or _)) rfl
  | maintain step => exact step.reservation
  | row step => exact step.reservation

/-- A lost transfer reserves nothing. -/
theorem LostStep.reservation {lost : List LogicalAccess}
    (step : LostStep config mapper now s lost t) : Reservation config s t := by
  refine .none ?_ step.wrapped ?_
  · rw [step.frame]
    exact ⟨rfl, rfl⟩
  · cases step with
    | mk => rw [takenState_stats, modifyQueue_busy, countCommand_busy, countStarts_busy]

/-- A transfer reserves the bus of its pseudo-channel from when it is free. -/
theorem DataStep.reservation {physical : PhysicalAccess}
    (step : DataStep config mapper now s physical t) : Reservation config s t := by
  cases step with
  | @mk w index bankIndex busReady duration a k _ banks slot demand data local_ hbanks bus hduration
      hslot =>
      subst hslot
      let slot : DataSlot := ⟨now, casLatency config w, busReady, duration⟩
      refine .some
        ⟨w, a.address.pseudoChannel, a.sizeBytes, now, slot.dataStart, slot.completion⟩ slot
        rfl rfl bus hduration rfl rfl ?_ ?_ (fun fits => ?_) ?_
      · rw [transferredState_ctl]
      · rw [transferredState_ctl]
      · rw [transferredState_ctl] at fits
        obtain ⟨fits, length⟩ := noteSum_wrapped fits
        obtain ⟨fits, latency⟩ := noteSum_wrapped fits
        exact ⟨(stampCommand_wrapped fits).1, latency, length⟩
      · refine (countTransfer_busy _ _ _ _ _).trans ?_
        rw [countStarts_busy, modifyQueue_busy]
        exact congrArg (· + duration) ((countCommand_busy _ _).trans (countStarts_busy _ _ _ _))

/-- What a beat reserves. -/
theorem Beat.reservation (beat : Beat config mapper now exempt s t) : Reservation config s t := by
  cases beat with
  | step step => exact step.reservation
  | data step => exact step.reservation
  | lose step => exact step.reservation
  | aside aside traffic =>
      obtain ⟨c, stats⟩ := t
      dsimp only at aside
      cases aside with
      | mark => exact .none ⟨rfl, rfl⟩ id traffic.dataBus
      | reserve => exact .none ⟨rfl, rfl⟩ id traffic.dataBus
      | push => exact .none ⟨rfl, rfl⟩ id traffic.dataBus
      | finish => exact .none ⟨rfl, rfl⟩ id traffic.dataBus

end HbmController

/-! ### The data buses in every state -/

section

open HbmController

variable {config : HbmControllerConfig} {s t : ControllerState}

/-- Every reservation is counted. -/
theorem DataCounted.reservation (h : s.ctl.wrapped = true ∨ DataCounted config s)
    (reservation : Reservation config s t) : t.ctl.wrapped = true ∨ DataCounted config t := by
  cases reservation with
  | none data wrapped busy =>
      refine h.imp wrapped fun counted => ⟨⟨?_, ?_⟩, ?_⟩
      · rw [data.dataBusReadyAt, data.transfers]
        exact counted.buses.booked
      · rw [data.transfers]
        exact counted.buses.timed
      · rw [busy, data.transfers]
        exact counted.busy
  | some x slot issued latency ready duration dataStart completion bus transfers wrapped busy =>
      by_cases wraps : t.ctl.wrapped = true
      · exact .inl wraps
      obtain ⟨before, reads, ends⟩ := wrapped (Bool.eq_false_iff.mpr wraps)
      have counted := h.resolve_left (by rw [before]; decide)
      have dataReady : slot.dataReady = x.issuedAt + casLatency config x.isWrite := by
        unfold DataSlot.dataReady
        rw [SimTime.add_of_lt reads, issued, latency]
      have finish : x.completion = x.dataStart + slot.duration := by
        rw [completion, dataStart]
        exact SimTime.add_of_lt ends
      have waits : slot.busReady ≤ x.dataStart := by
        rw [dataStart]
        exact Nat.le_max_right _ _
      refine .inr ⟨⟨?_, fun y hy => ?_⟩, ?_⟩
      · rw [bus, transfers]
        refine counted.buses.booked.reserve ?_ ?_ ?_ fun p other => ?_
        · rw [ready]
          exact waits
        · omega
        · have inside := (List.getElem?_eq_some_iff.mp ready).1
          rw [List.getElem?_set_self inside]
          rfl
        · rw [List.getElem?_set_ne (Ne.symm other)]
      · rw [transfers] at hy
        rcases List.mem_cons.mp hy with rfl | hy
        · refine ⟨?_, slot.duration, duration, finish⟩
          rw [← dataReady, dataStart]
          exact Nat.le_max_left _ _
        · exact counted.buses.timed y hy
      · have length : x.completion - x.dataStart = slot.duration := by omega
        rw [busy, transfers, counted.busy]
        unfold busTime
        rw [List.map_cons, List.sum_cons, length, Nat.add_comm]

/-- A transfer is on one of the data buses. -/
structure OnBuses (config : HbmControllerConfig) (c : HbmController) : Prop where
  buses : c.dataBusReadyAt.length = config.pseudoChannelCount
  transfers : ∀ x ∈ c.transfers, x.pseudoChannel < config.pseudoChannelCount

/-- Every reservation is on a bus there is. -/
theorem OnBuses.reservation (h : OnBuses config s.ctl) (reservation : Reservation config s t) :
    OnBuses config t.ctl := by
  cases reservation with
  | none data =>
      constructor
      · rw [data.dataBusReadyAt]
        exact h.buses
      · rw [data.transfers]
        exact h.transfers
  | some x slot issued latency ready duration dataStart completion bus transfers =>
      constructor
      · rw [bus, List.length_set]
        exact h.buses
      · intro y hy
        rw [transfers] at hy
        rcases List.mem_cons.mp hy with rfl | hy
        · rw [← h.buses]
          exact (List.getElem?_eq_some_iff.mp ready).1
        · exact h.transfers y hy

/-- In every run the transfers are on buses of their channel. -/
theorem HbmSystem.Run.onBuses {cfg : HbmConfig} (checked : cfg.Checked) {p : HbmSystem × Debts}
    (run : Run cfg p) (channel : Nat) :
    OnBuses (cfg.channelConfig channel) (p.1.controllers channel) := by
  refine (run.channel checked channel
    (P := fun _ _ s => OnBuses (cfg.channelConfig channel) s.ctl) ⟨?_, nofun⟩ (fun _ _ h => h)
    fun _ h beat => h.reservation beat.reservation).2
  exact List.length_replicate

/-- In every run the bus time is that of the transfers. -/
theorem HbmSystem.Run.dataCounted {cfg : HbmConfig} (checked : cfg.Checked)
    {p : HbmSystem × Debts} (run : Run cfg p) (channel : Nat) :
    (p.1.controllers channel).wrapped = true ∨
      DataCounted (cfg.channelConfig channel) (p.1.side channel) := by
  refine (run.channel checked channel (P := fun _ _ s => s.ctl.wrapped = true ∨
    DataCounted (cfg.channelConfig channel) s) (.inr ⟨⟨.nil, nofun⟩, ?_⟩) (fun _ _ h => h)
    fun _ h beat => DataCounted.reservation h beat.reservation).2
  show (initialChannelStats cfg).dataBusBusyTime = 0
  unfold initialChannelStats
  split <;> rfl

end

end HbmSim
