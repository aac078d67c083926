import Mathlib.Algebra.BigOperators.Ring.Finset
import HbmSim.System.Transport
import HbmSim.System.Actions
import HbmSim.System.Obligations
import HbmSim.System.Replay

/-!
The bandwidth of the data buses.

The transfers on one data bus do not overlap, and each takes the time its bytes need at the
rate of a pseudo-channel. So no data bus moves more bytes in a window of time than its rate
allows, and the bytes counted for the system are within the rates of all its data buses.
-/

namespace HbmSim

open HbmSim.Lib HbmSystem

/-- The transfers on a data bus inside a window of time. -/
def transfersWithin (transfers : List DataTransfer) (pseudoChannel first last : Nat) :
    List DataTransfer :=
  transfers.filter fun x =>
    x.pseudoChannel = pseudoChannel ∧ first ≤ x.dataStart ∧ x.completion ≤ last

def movedBytes (transfers : List DataTransfer) : Nat := (transfers.map DataTransfer.bytes).sum

/-- The bandwidth of the data buses up to a time. -/
structure WithinBandwidth (cfg : HbmConfig) (s : HbmSystem) : Prop where
  /-- In every window of time. -/
  bus : ∀ channel < cfg.channelCount, ∀ pseudoChannel first last,
    movedBytes (transfersWithin (s.controllers channel).transfers pseudoChannel first last) *
        cfg.device.organization.pseudoChannelRate.interval ≤
      cfg.device.organization.pseudoChannelRate.bytes * (last - first)
  /-- All data buses together, up to the end of the last transfer. -/
  system : ∀ last, (∀ channel < cfg.channelCount, ∀ x ∈ (s.controllers channel).transfers,
      x.completion ≤ last) →
    (s.stats.physicalReadBytes + s.stats.physicalWriteBytes) *
        cfg.device.organization.pseudoChannelRate.interval ≤
      cfg.device.organization.pseudoChannelRate.bytes *
        (cfg.channelCount * cfg.device.organization.topology.pseudoChannelsPerChannel * last)

section

variable {cfg : HbmConfig} {s : HbmSystem} {escapes : HbmError → Prop}

/-- A transfer takes the time its bytes need. -/
theorem Timed.bytes {config : HbmControllerConfig} {x : DataTransfer} (timed : Timed config x) :
    x.bytes * config.dataRate.interval ≤ config.dataRate.bytes * (x.completion - x.dataStart) := by
  obtain ⟨duration, time, ends⟩ := timed.holds
  have exact_ := (BandwidthRate.transferTime_exact time).1
  have length : x.completion - x.dataStart = duration := by omega
  rwa [length]

theorem movedBytes_le {config : HbmControllerConfig} {transfers : List DataTransfer}
    (timed : ∀ x ∈ transfers, Timed config x) :
    movedBytes transfers * config.dataRate.interval ≤
      config.dataRate.bytes * busTime transfers := by
  unfold movedBytes busTime
  induction transfers with
  | nil => simp
  | cons x rest ih =>
      have first := (timed x List.mem_cons_self).bytes
      have others := ih fun y hy => timed y (List.mem_cons_of_mem x hy)
      simp only [List.map_cons, List.sum_cons, Nat.add_mul, Nat.mul_add]
      omega

/-- No data bus moves more in a window than its rate allows. -/
theorem DataBuses.moved_le {config : HbmControllerConfig} {c : HbmController}
    (h : DataBuses config c) (pseudoChannel first last : Nat) :
    movedBytes (transfersWithin c.transfers pseudoChannel first last) * config.dataRate.interval ≤
      config.dataRate.bytes * (last - first) := by
  have timed : ∀ x ∈ transfersWithin c.transfers pseudoChannel first last, Timed config x :=
    fun x hx => h.timed x (List.mem_filter.mp hx).1
  have forward : ∀ x ∈ c.transfers, x.dataStart ≤ x.completion := fun x hx => by
    obtain ⟨duration, -, ends⟩ := (h.timed x hx).holds
    omega
  have held : busTime (transfersWithin c.transfers pseudoChannel first last) ≤ last - first :=
    h.booked.sum_lengths_le forward pseudoChannel first last
  exact Nat.le_trans (movedBytes_le timed) (Nat.mul_le_mul_left _ held)

/-- The bytes a channel moved up to a time, over its data buses. -/
theorem DataBuses.total_le {config : HbmControllerConfig} {c : HbmController}
    (h : DataBuses config c) (seated : OnBuses config c) {last : Nat}
    (ended : ∀ x ∈ c.transfers, x.completion ≤ last) :
    movedBytes c.transfers * config.dataRate.interval ≤
      config.pseudoChannelCount * (config.dataRate.bytes * last) := by
  have whole : ∀ p, c.transfers.filter (fun x => x.pseudoChannel = p) =
      transfersWithin c.transfers p 0 last := fun p => by
    refine List.filter_congr fun x hx => ?_
    simp [ended x hx]
  have split : movedBytes c.transfers = ∑ p ∈ Finset.range config.pseudoChannelCount,
      movedBytes (transfersWithin c.transfers p 0 last) := by
    unfold movedBytes
    rw [← sum_range_filter c.transfers DataTransfer.pseudoChannel DataTransfer.bytes seated.transfers]
    simp only [whole]
  rw [split, Finset.sum_mul]
  refine Nat.le_trans (Finset.sum_le_sum fun p _ => h.moved_le p 0 last) ?_
  simp only [Finset.sum_const, Finset.card_range, smul_eq_mul, Nat.sub_zero, Nat.le_refl]

/-- The bytes counted for the transfers of a channel. -/
theorem movedBytes_eq (transfers : List DataTransfer) :
    TransferCounter.readBytes.sum transfers + TransferCounter.writeBytes.sum transfers =
      movedBytes transfers := by
  unfold TransferCounter.sum movedBytes
  induction transfers with
  | nil => rfl
  | cons x rest ih =>
      have here : TransferCounter.readBytes.weight x + TransferCounter.writeBytes.weight x =
          x.bytes := by
        show (if x.isWrite then 0 else x.bytes) + (if x.isWrite then x.bytes else 0) = x.bytes
        split <;> omega
      simp only [List.map_cons, List.sum_cons]
      omega

/-- The bytes counted for the system are those of the transfers of its channels. -/
theorem HbmSystem.Run.movedBytes {d : Debts} (run : Run cfg (s, d)) :
    s.stats.physicalReadBytes + s.stats.physicalWriteBytes =
      ∑ channel ∈ Finset.range cfg.channelCount,
        HbmSim.movedBytes (s.controllers channel).transfers := by
  have reads : s.stats.physicalReadBytes = s.total cfg (transportedOn .readBytes) :=
    run.transported .readBytes
  have writes : s.stats.physicalWriteBytes = s.total cfg (transportedOn .writeBytes) :=
    run.transported .writeBytes
  unfold HbmSystem.total at reads writes
  rw [reads, writes, ← Finset.sum_add_distrib]
  exact Finset.sum_congr rfl fun channel _ => movedBytes_eq (s.controllers channel).transfers

/-- In every run without overflow the data buses stay within their rates. -/
theorem bandwidth_bounded (reached : Reachable cfg escapes s) (inTime : ¬ Overflowed cfg s) :
    WithinBandwidth cfg s := by
  obtain ⟨valid, -, d, point, -⟩ := reached.point
  have buses : ∀ channel < cfg.channelCount,
      DataBuses (cfg.channelConfig channel) (s.controllers channel) := fun channel hchannel =>
    ((point.run.dataCounted valid.checked channel).resolve_left fun wraps =>
      inTime (.inr ⟨channel, hchannel, wraps⟩)).buses
  constructor
  case bus =>
    intro channel hchannel pseudoChannel first last
    exact (buses channel hchannel).moved_le pseudoChannel first last
  case system =>
    intro last ended
    rw [point.run.movedBytes, Finset.sum_mul]
    refine Nat.le_trans (Finset.sum_le_sum fun channel hchannel =>
      (buses channel (Finset.mem_range.mp hchannel)).total_le (point.run.onBuses valid.checked channel)
        (ended channel (Finset.mem_range.mp hchannel))) ?_
    show ∑ _ ∈ Finset.range cfg.channelCount,
      cfg.device.organization.topology.pseudoChannelsPerChannel *
        (cfg.device.organization.pseudoChannelRate.bytes * last) ≤ _
    rw [Finset.sum_const, Finset.card_range, smul_eq_mul]
    exact Nat.le_of_eq (by ac_rfl)

/-- Three transfers on the data buses of HBM2. -/
theorem bandwidth_bounded_write : ∃ s : HbmSystem, WithinBandwidth .hbm2_2000 s ∧
    s.stats.physicalReadBytes + s.stats.physicalWriteBytes = 96 := by
  obtain ⟨s, reached, final⟩ := exists_reachable .hbm2_2000 NoEscape
    (submit (.write 1 0 64) :: submit (.read 2 64 64) :: dispatches 12)
    (fun s => s.inTime .hbm2_2000 &&
      decide (s.stats.physicalReadBytes + s.stats.physicalWriteBytes = 96))
    (by decide) (by decide) (by decide +kernel)
  obtain ⟨inTime, final⟩ := Bool.and_eq_true _ _ |>.mp final
  exact ⟨s, bandwidth_bounded reached (not_overflowed_of_inTime inTime), of_decide_eq_true final⟩

end

end HbmSim
