import HbmSim.Controller.Readiness

/-!
What the planner, the transition tables and the two choices of the controller
(`choose_maintenance`, `choose_next`) answer.
-/

namespace HbmSim

open HbmSim.Lib

/-! ### Transitions -/

/-- What a command does to the row of a bank it acts on. -/
def HbmCommand.transition : HbmCommand → BankTransition
  | .act => .openTarget
  | .read | .write => .none
  | _ => .close

/-- The open row of a bank after a command on it that addresses `row`. -/
def HbmCommand.rowAfter (k : HbmCommand) (row : Nat) (openRow : Option Nat) : Option Nat :=
  match k.transition with
  | .openTarget => some row
  | .none => openRow
  | .close => none

/-- The command closes its row by itself. -/
def HbmCommand.isAuto : HbmCommand → Bool
  | .readAuto | .writeAuto => true
  | _ => false

/-- A supported command has its transition. -/
theorem HbmStandard.transitionFor_of_supports {s : HbmStandard} {k : HbmCommand}
    (h : s.supports k = true) :
    s.transitionFor k = .ok ⟨k, if k.isAllBank then .channel else .bank, k.transition⟩ := by
  cases s <;> cases k <;> first | rfl | cases h

/-- There is no other transition. -/
theorem HbmStandard.transitionFor_eq_ok {s : HbmStandard} {k : HbmCommand} {t : CommandTransition}
    (h : s.transitionFor k = .ok t) :
    t = ⟨k, if k.isAllBank then .channel else .bank, k.transition⟩ := by
  cases s <;> cases k <;> cases h <;> rfl

/-- A transition opens and closes rows as its command says. -/
theorem BankTransition.apply_openRow (k : HbmCommand) (row : Nat) (b : HbmBankState) :
    (k.transition.apply row b).openRow = k.rowAfter row b.openRow := by
  cases k <;> rfl

/-- A transition touches a bank's row and its precharge flag only. -/
structure RowChange (k : HbmCommand) (row : Nat) (before after : HbmBankState) : Prop where
  openRow : after.openRow = k.rowAfter row before.openRow
  refreshPending : after.refreshPending = before.refreshPending
  rfmPending : after.rfmPending = before.rfmPending
  activationCount : after.activationCount = before.activationCount

/-- A transition is a change of rows. -/
theorem BankTransition.apply_change (k : HbmCommand) (row : Nat) (b : HbmBankState) :
    RowChange k row b (k.transition.apply row b) :=
  ⟨apply_openRow k row b, by cases k <;> rfl, by cases k <;> rfl, by cases k <;> rfl⟩

/-- The banks of a channel after a command: every bank changes its row for an
all-bank command, the bank at `index` for any other. -/
def RowsChanged (k : HbmCommand) (row index : Nat) (before after : List HbmBankState) : Prop :=
  after.length = before.length ∧ (k.isAllBank = false → index < before.length) ∧
    ∀ i b b', before[i]? = some b → after[i]? = some b' →
      if k.isAllBank = true ∨ i = index then RowChange k row b b' else b' = b

/-- An all-bank command changes every bank. -/
theorem RowsChanged.of_map {k : HbmCommand} {row index : Nat} {f : HbmBankState → HbmBankState}
    {banks : List HbmBankState} (all : k.isAllBank = true) (change : ∀ b, RowChange k row b (f b)) :
    RowsChanged k row index banks (banks.map f) := by
  refine ⟨by simp, by simp [all], fun i b b' hb hb' => ?_⟩
  rw [List.getElem?_map, hb] at hb'
  obtain rfl : f b = b' := by simpa using hb'
  simp [all, change b]

/-- Another command changes its own bank. -/
theorem RowsChanged.of_modify {k : HbmCommand} {row index : Nat}
    {f : HbmBankState → HbmBankState} {banks : List HbmBankState} (all : k.isAllBank = false)
    (hindex : index < banks.length) (change : ∀ b, RowChange k row b (f b)) :
    RowsChanged k row index banks (banks.modify index f) := by
  refine ⟨by simp, fun _ => hindex, fun i b b' hb hb' => ?_⟩
  rw [List.getElem?_modify, hb] at hb'
  by_cases hi : index = i
  · obtain rfl : f b = b' := by simpa [hi] using hb'
    simp [hi, change b]
  · obtain rfl : b = b' := by simpa [hi] using hb'
    simp [all, Ne.symm hi]

/-- The row change of a command that moves no row is no change of the rows. -/
theorem RowChange.refl_of_none {k : HbmCommand} {row : Nat} {b : HbmBankState}
    (h : k.transition = .none) : RowChange k row b b :=
  ⟨by simp [HbmCommand.rowAfter, h], rfl, rfl, rfl⟩

namespace HbmController

variable {config : HbmControllerConfig} {mapper : HbmAddressMapper} {c : HbmController}

/-- The transitions of a command change the rows it says. -/
theorem transitionBanks_ok {k : HbmCommand} {row index : Nat} {banks banks' : List HbmBankState}
    (noAuto : config.standard = none → k.isAuto = false)
    (run : transitionBanks config k row index banks = .ok banks') :
    RowsChanged k row index banks banks' := by
  unfold transitionBanks at run
  split at run
  · rename_i hnone
    have hauto := noAuto hnone
    split at run
    · cases run
      exact .of_map rfl fun b => ⟨rfl, rfl, rfl, rfl⟩
    · cases run
      exact .of_map rfl fun b => ⟨rfl, rfl, rfl, rfl⟩
    · cases run
      exact .of_map rfl fun b => ⟨rfl, rfl, rfl, rfl⟩
    · rename_i hall₁ hall₂ hall₃
      have hall : k.isAllBank = false := by cases k <;> simp_all [HbmCommand.isAllBank]
      split at run
      · cases run
      · rename_i bank hbank
        have hindex : index < banks.length := (List.getElem?_eq_some_iff.mp hbank).1
        split at run
        · cases run
          exact .of_modify hall hindex fun b => ⟨rfl, rfl, rfl, rfl⟩
        · cases run
          exact .of_modify hall hindex fun b => ⟨rfl, rfl, rfl, rfl⟩
        · cases run
          exact .of_modify hall hindex fun b => ⟨rfl, rfl, rfl, rfl⟩
        · cases run
          exact .of_modify hall hindex fun b => ⟨rfl, rfl, rfl, rfl⟩
        · cases run
          have hnone : k.transition = .none := by
            cases k <;> simp_all [HbmCommand.transition, HbmCommand.isAuto]
          have := RowsChanged.of_modify (f := id) hall hindex
            (fun b => show RowChange k row b b from RowChange.refl_of_none hnone)
          simpa using this
  · rename_i s hs
    split at run
    · cases run
    · rename_i t ht
      obtain rfl := HbmStandard.transitionFor_eq_ok ht
      cases hall : k.isAllBank with
      | true =>
          simp only [hall, if_true] at run
          cases run
          exact .of_map hall (BankTransition.apply_change k row)
      | false =>
          simp only [hall, Bool.false_eq_true, if_false, reduceCtorEq] at run
          split at run
          · cases run
          · rename_i bank hbank
            cases run
            exact .of_modify hall (List.getElem?_eq_some_iff.mp hbank).1
              (BankTransition.apply_change k row)

/-- They fail only for a bank there is not. -/
theorem transitionBanks_error {k : HbmCommand} {row index : Nat} {banks : List HbmBankState}
    {e : HbmError} (sup : supported config k = true)
    (run : transitionBanks config k row index banks = .error e) :
    banks.length ≤ index ∧ e.isRange = true := by
  unfold transitionBanks at run
  split at run
  · split at run
    · cases run
    · cases run
    · cases run
    · split at run
      · rename_i hnone
        cases run
        exact ⟨by simpa using hnone, rfl⟩
      · split at run <;> cases run
  · rename_i s hs
    have hsup : s.supports k = true := by simpa [supported, hs] using sup
    rw [HbmStandard.transitionFor_of_supports hsup] at run
    cases hall : k.isAllBank with
    | true => simp [hall] at run
    | false =>
        simp only [hall, Bool.false_eq_true, if_false, reduceCtorEq] at run
        split at run
        · rename_i hnone
          cases run
          exact ⟨by simpa using hnone, rfl⟩
        · cases run

end HbmController

/-! ### Planning -/

namespace HbmCommandPlanner

/-- The command an access requests transfers data. -/
theorem requestedCommand_isData (op : HbmOp) (auto : Bool) :
    (requestedCommand op auto).isData = true := by
  cases op <;> cases auto <;> rfl

/-- What the planner answers for a data request, by the state of its bank. -/
inductive Planned (standard : Option HbmStandard) (op : HbmOp) (row : Nat) (auto : Bool)
    (bank : HbmBankState) : HbmCommand → Prop
  | precharge (closes : (∃ other, bank.openRow = some other ∧ other ≠ row) ∨
      (standard = none ∧ bank.prechargePending = true)) : Planned standard op row auto bank .preBank
  | activate (closed : bank.openRow = none)
      (settled : standard = none → bank.prechargePending = false) :
      Planned standard op row auto bank .act
  | data (opened : bank.openRow = some row)
      (settled : standard = none → bank.prechargePending = false) :
      Planned standard op row auto bank (requestedCommand op auto)

attribute [local simp] HbmStandard.resolvePrerequisite HbmStandard.supports
  HbmStandard.commonSupport HbmStandard.prerequisites HbmStandard.hbm2Prerequisites
  HbmStandard.hbm3Prerequisites CommandCondition.holds HbmStandard.transitionFor
  HbmStandard.transitions HbmStandard.hbm2Transitions HbmStandard.hbm3Transitions

/-- Under a standard the first rule that holds decides: another row, then no row. -/
theorem next_standard (s : HbmStandard) (op : HbmOp) (row : Nat) (bank : HbmBankState)
    (auto : Bool) :
    next (some s) op row bank auto = .ok
      (match bank.openRow with
        | some other => if other = row then requestedCommand op auto else .preBank
        | none => .act) := by
  have rules : ∀ requested, requested.isData = true →
      s.resolvePrerequisite requested row bank bank.openRow.isSome = .ok
        (match bank.openRow with
          | some other => if other = row then ⟨requested, .bank, true⟩ else ⟨.preBank, .bank, false⟩
          | none => ⟨.act, .bank, false⟩) := by
    intro requested hdata
    cases hrow : bank.openRow with
    | none =>
        cases s <;> cases requested <;> first
          | cases hdata; done
          | simp [hrow]
    | some other =>
        by_cases hsame : other = row <;> cases s <;> cases requested <;> first
          | cases hdata; done
          | simp [hrow, hsame]
  unfold next nextDecision
  simp only [rules _ (requestedCommand_isData op auto)]
  cases bank.openRow with
  | none => rfl
  | some other => by_cases hsame : other = row <;> simp [hsame]

/-- A command is planned for every bank. -/
theorem next_planned (standard : Option HbmStandard) (op : HbmOp) (row : Nat)
    (bank : HbmBankState) (auto : Bool) :
    ∃ k, next standard op row bank auto = .ok k ∧ Planned standard op row auto bank k := by
  cases standard with
  | some s =>
      rw [next_standard]
      cases hrow : bank.openRow with
      | none => exact ⟨_, rfl, .activate hrow nofun⟩
      | some other =>
          by_cases hsame : other = row
          · subst hsame
            exact ⟨_, rfl, by simpa using Planned.data hrow (by simp)⟩
          · exact ⟨_, rfl, by simpa [hsame] using Planned.precharge (.inl ⟨other, hrow, hsame⟩)⟩
  | none =>
      unfold next
      cases hpending : bank.prechargePending with
      | true => exact ⟨_, rfl, .precharge (.inr ⟨rfl, hpending⟩)⟩
      | false =>
          cases hrow : bank.openRow with
          | none =>
              exact ⟨.act, by simp [CommandCondition.holds, hrow], .activate hrow fun _ => hpending⟩
          | some other =>
              by_cases hsame : other = row
              · exact ⟨requestedCommand op auto, by simp [CommandCondition.holds, hrow, hsame],
                  .data (by simpa [hsame] using hrow) fun _ => hpending⟩
              · exact ⟨.preBank, by simp [CommandCondition.holds, hrow, hsame],
                  .precharge (.inl ⟨other, hrow, hsame⟩)⟩

/-- The planner supports every command it needs to plan all-bank refresh. -/
theorem nextDecision_refreshAllBank (standard : Option HbmStandard) (row : Nat)
    (bank : HbmBankState) (anyOpen : Bool) :
    nextDecision standard .refreshAllBank row bank anyOpen =
      .ok (if anyOpen then ⟨.preAll, .channel, false⟩ else ⟨.refreshAllBank, .channel, true⟩) := by
  cases standard with
  | none => cases anyOpen <;> rfl
  | some s => cases s <;> cases anyOpen <;> rfl

/-- Per-bank maintenance closes its bank first. -/
theorem nextDecision_perBank {standard : Option HbmStandard} {requested : HbmCommand}
    (hrequested : requested = .refreshPerBank ∨ requested = .rfmPerBank)
    (sup : ∀ s, standard = some s → s.supports requested = true) (row : Nat)
    (bank : HbmBankState) (anyOpen : Bool) :
    nextDecision standard requested row bank anyOpen =
      .ok (if bank.openRow.isSome then ⟨.preBank, .bank, false⟩ else ⟨requested, .bank, true⟩) := by
  cases standard with
  | none => rcases hrequested with rfl | rfl <;> simp [nextDecision]
  | some s =>
      have hsup := sup s rfl
      cases hrow : bank.openRow <;> rcases hrequested with rfl | rfl <;> cases s <;> first
        | cases hsup; done
        | simp [nextDecision, hrow]

end HbmCommandPlanner

end HbmSim
