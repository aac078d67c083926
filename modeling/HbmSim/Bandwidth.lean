import HbmSim.Types

/-!
Exact rational transport rates (`bandwidth_rate.h`, `bandwidth_rate.cpp`).
-/

namespace HbmSim

structure BandwidthRate where
  bytes : Nat := 32
  interval : Nat := 1000
deriving DecidableEq, Repr

namespace BandwidthRate

def validate (r : BandwidthRate) : Except HbmError Unit :=
  if r.bytes = 0 ∨ r.interval = 0 then
    .error (.invalidArgument "bandwidth rate numerator and interval must be non-zero")
  else .ok ()

def transferTime (r : BandwidthRate) (transferBytes : Nat) : Except HbmError Nat := do
  r.validate
  if transferBytes > maxSimTime / r.interval then
    throw (.overflowError "transfer time overflows SimTime")
  let scaled := transferBytes * r.interval
  if scaled > maxSimTime - (r.bytes - 1) then
    throw (.overflowError "transfer time overflows SimTime")
  return (scaled + r.bytes - 1) / r.bytes

/-- A transfer time that is returned is the exact quotient, rounded up. -/
theorem transferTime_ok {r : BandwidthRate} {n d : Nat} (h : r.transferTime n = .ok d) :
    0 < r.bytes ∧ d = (n * r.interval + r.bytes - 1) / r.bytes := by
  unfold transferTime validate at h
  by_cases hz : r.bytes = 0 ∨ r.interval = 0
  · simp [hz, bind, Except.bind] at h
  · simp only [hz, if_false, bind, Except.bind] at h
    split at h
    · simp [throw, throwThe, MonadExceptOf.throw] at h
    · split at h
      · simp [throw, throwThe, MonadExceptOf.throw] at h
      · simp only [pure, Except.pure, Except.ok.injEq] at h
        exact ⟨by omega, h.symm⟩

/-- The rounded quotient is the least time that moves `n` bytes at rate `r`. -/
theorem transferTime_exact {r : BandwidthRate} {n d : Nat} (h : r.transferTime n = .ok d) :
    n * r.interval ≤ r.bytes * d ∧ ∀ d', n * r.interval ≤ r.bytes * d' → d ≤ d' := by
  obtain ⟨hpos, rfl⟩ := transferTime_ok h
  constructor
  · have split := Nat.div_add_mod (n * r.interval + r.bytes - 1) r.bytes
    have rest := Nat.mod_lt (n * r.interval + r.bytes - 1) hpos
    omega
  · intro d' hd'
    rw [Nat.div_le_iff_le_mul_add_pred hpos]
    omega

end BandwidthRate

end HbmSim
