import HbmSim.Controller.Choice
import HbmSim.Lib.Throw
import HbmSim.System.NextAccess
import HbmSim.System.System

/-!
What `validate` and the constructor have checked.
-/

namespace HbmSim

open HbmSim.Lib

namespace HbmConfig

/-- The checks of `validate` that the simulation rests on. -/
structure Checked (cfg : HbmConfig) : Prop where
  active : 0 < cfg.controller.maxActiveTransactions
  topology : cfg.device.organization.topology.validate = .ok ()
  rate : 0 < cfg.device.organization.pseudoChannelRate.bytes ∧
    0 < cfg.device.organization.pseudoChannelRate.interval
  interleave : 0 < cfg.device.organization.addressInterleaveBytes
  columns : 0 < cfg.device.organization.columnsPerRow
  rows : 0 < cfg.device.organization.rowsPerBank
  burst : 0 < cfg.device.organization.physicalBurstBytes
  refresh : cfg.controller.refreshInterval ≠ 0 →
    refreshDuration cfg.controller.refreshPolicy cfg.device.timing ≤ cfg.controller.refreshInterval
  rfm : cfg.controller.enableRfm = true →
    ∃ s, cfg.device.standard = some s ∧ s.supports .rfmPerBank = true
  threshold : cfg.controller.enableRfm = true → cfg.controller.rfmActivationThreshold ≠ 0

theorem BandwidthRate.validate_ok {r : BandwidthRate} (h : r.validate = .ok ()) :
    0 < r.bytes ∧ 0 < r.interval := by
  unfold BandwidthRate.validate at h
  split at h
  · cases h
  · omega

theorem rejectIf_ok {bad : Prop} [Decidable bad] {what : String} :
    rejectIf bad what = .ok () ↔ ¬ bad := by
  unfold rejectIf
  by_cases h : bad <;> simp [h]

theorem Valid.checked {cfg : HbmConfig} (valid : cfg.Valid) : cfg.Checked := by
  simp only [Valid, validate, bind_eq_ok, rejectIf_ok] at valid
  obtain ⟨⟨⟩, active, ⟨⟩, topology, ⟨⟩, rate, ⟨⟩, geometry, ⟨⟩, -, ⟨⟩, -, ⟨⟩, -, ⟨⟩, refresh, ⟨⟩,
    rfm,
    threshold⟩ := valid
  have rate := BandwidthRate.validate_ok rate
  have geometry := rejectIf_ok.mp geometry
  refine ⟨?_, topology, rate, by omega, by omega, by omega, by omega, fun h => ?_, fun h => ?_,
    fun h zero => threshold ⟨h, zero⟩⟩
  · exact Nat.pos_of_ne_zero (rejectIf_ok.mp active)
  · exact Nat.not_lt.mp fun lt => rejectIf_ok.mp refresh ⟨h, lt⟩
  · have rfm := rejectIf_ok.mp rfm
    cases hs : cfg.device.standard with
    | none => simp [h, hs] at rfm
    | some s => exact ⟨s, rfl, by simpa [h, hs] using rfm⟩

/-- What the constructor hands to the controller of one channel. -/
theorem Checked.wiring {cfg : HbmConfig} (checked : cfg.Checked) (channel : Nat) :
    Wiring (cfg.channelConfig channel) cfg.mapper where
  rfm := checked.rfm
  rate := checked.rate
  firstBank := u32_lt _
  pseudoChannels byte a hmap := by
    unfold HbmAddressMapper.map at hmap
    dsimp only at hmap
    split at hmap
    · cases hmap
    · rename_i hinside
      cases hmap
      simp only [HbmAddressMapper.outside, Bool.or_eq_true, decide_eq_true_eq, not_or] at hinside
      exact Nat.not_le.mp hinside.1.1.1.1

/-- The channel of a mapped address exists. -/
theorem map_channel {cfg : HbmConfig} (count : cfg.channelCount ≠ 0) {byte : Nat}
    {a : HbmAddress} (hmap : cfg.mapper.map byte = .ok a) : a.flatChannel < cfg.channelCount := by
  have positive := Nat.pos_of_ne_zero count
  unfold HbmAddressMapper.map at hmap
  dsimp only at hmap
  split at hmap
  · cases hmap
  · cases hmap
    show (cfg.mapper.decode byte).flatChannel < cfg.channelCount
    unfold HbmAddressMapper.decode
    split
    · exact positive
    · show u32 (_ % cfg.channelCount) < cfg.channelCount
      exact Nat.lt_of_le_of_lt (Nat.mod_le _ _) (Nat.mod_lt _ positive)

/-- Every byte address maps into the topology, and every bank of a channel is one of the
mapper's: so it is if the banks of the topology can be counted in 32 bits (`HbmTopology.Fits`).
It holds of the standards' devices. -/
structure Covered (cfg : HbmConfig) : Prop where
  total : ∀ byte, ∃ a, cfg.mapper.map byte = .ok a
  regular : ∀ channel < cfg.channelCount, Regular (cfg.channelConfig channel) cfg.mapper

end HbmConfig

namespace HbmSystem

theorem create_ok {cfg : HbmConfig} {s : HbmSystem} :
    create cfg = .ok s ↔ cfg.Valid ∧ cfg.channelCount ≠ 0 ∧ s = initial cfg := by
  unfold create HbmConfig.Valid
  cases h : cfg.validate with
  | error e => simp
  | ok u =>
      cases u
      by_cases hcount : cfg.channelCount = 0
      · simp [hcount, throw, throwThe, MonadExceptOf.throw]
      · simp [hcount, eq_comm, pure, Except.pure]

/-- Some time has left 64 bits. -/
def Overflowed (cfg : HbmConfig) (s : HbmSystem) : Prop :=
  2 ^ 64 ≤ s.now ∨ ∃ channel < cfg.channelCount, (s.controllers channel).wrapped = true

end HbmSystem

end HbmSim
