import HbmSim.System.Actions
import HbmSim.System.Replay
import HbmSim.System.Rows

/-!
Every command finds its bank as it needs it.

The banks of a controller agree with the commands recorded on them, and each command finds
the rows it needs: planning, refresh, RFM and auto-precharge agree in every state of every
run. No internal error is raised in a run without overflow, on any device.
-/

namespace HbmSim

open HbmSim.Lib HbmSystem

/-- The commands of a channel are legal for the rows of its banks. -/
structure RowsLegal (cfg : HbmConfig) (s : HbmSystem) (channel : Nat) : Prop where
  opened : ∀ (i : Nat) b, (s.controllers channel).banks[i]? = some b →
    b.openRow = openRowAfter i (s.controllers channel).recorded
  legal : ∀ r earlier, (r :: earlier) <:+ (s.controllers channel).recorded →
    RowLegal cfg.banksPerChannel r earlier

section

variable {cfg : HbmConfig} {s : HbmSystem} {escapes : HbmError → Prop}

theorem not_logic_of_overflow {e : HbmError} (overflow : e.isOverflow = true) :
    e.isLogic = false := by
  cases e with
  | overflowError what => rfl
  | _ => cases overflow

theorem not_logic_of_range {e : HbmError} (range : e.isRange = true) : e.isLogic = false := by
  cases e with
  | logicError what => cases range
  | _ => rfl

/-- On a standard's device, or a custom one that leaves its rows open, every recorded command is
legal for the rows of its banks. No action raises an internal error, unless a time has
wrapped. -/
theorem rows_legal (reached : Reachable cfg escapes s)
    (rows : cfg.device.standard = none → cfg.controller.rowPolicy = .open) :
    (∀ channel, RowsLegal cfg s channel) ∧
      ∀ action e t, perform cfg action s = .error e t → ¬ Overflowed cfg t →
        e.isLogic = false := by
  obtain ⟨valid, count, d, point, -⟩ := reached.point
  constructor
  · intro channel
    have opens : cfg.device.standard = none →
      cfg.controller.rowPolicy.useAutoPrecharge = false := by
      intro custom
      rw [rows custom]
      rfl
    have rowed := point.run.rowed valid.checked opens channel
    exact ⟨rowed.rows, fun r earlier suffix => (rowed.inPlace r earlier suffix).rows⟩
  · intro action e t run inTime
    obtain ⟨-, excusable, -⟩ := (perform_leads valid.checked count action point).of_error run
    rcases excusable with overflow | passed | ⟨range, -⟩ | ⟨calm, -⟩
    · exact not_logic_of_overflow overflow
    · exact absurd passed inTime
    · exact not_logic_of_range range
    · exact calm

/-- A row is opened, closed for another one, and the data commands find theirs. -/
theorem rows_legal_conflict : ∃ s : HbmSystem, RowsLegal .hbm2_2000 s 0 ∧
    (s.controllers 0).recorded.any (fun r => r.command == .preBank) = true ∧
      (s.controllers 0).recorded.any (fun r => r.command == .read) = true := by
  obtain ⟨s, reached, final⟩ := exists_reachable .hbm2_2000 NoEscape
    (submit (.read 1 0 32) :: dispatches 8 ++ submit (.read 2 16777216 32) :: dispatches 8)
    (fun s => (s.controllers 0).recorded.any (fun r => r.command == .preBank) &&
      (s.controllers 0).recorded.any (fun r => r.command == .read))
    (by decide) (by decide) (by decide +kernel)
  obtain ⟨precharge, data⟩ := Bool.and_eq_true _ _ |>.mp final
  exact ⟨s, (rows_legal reached (by decide)).1 0, precharge, data⟩

end

end HbmSim
