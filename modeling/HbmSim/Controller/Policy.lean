import HbmSim.Standard

/-!
The controller's policies: command planning (`command_planner.cpp`), row policy
(`row_policy.cpp`), refresh policy (`refresh_manager.cpp`) and request selection
(`scheduler.cpp`).
-/

namespace HbmSim

inductive RowPolicy where
  | open | closed
deriving DecidableEq, Repr

def RowPolicy.useAutoPrecharge : RowPolicy → Bool
  | .open => false
  | .closed => true

inductive RefreshPolicy where
  | allBank | perBank
deriving DecidableEq, Repr

def RefreshPolicy.usesAllBankRefresh : RefreshPolicy → Bool
  | .allBank => true
  | .perBank => false

/-- Both refresh managers name the same all-bank command. -/
def RefreshPolicy.allBankCommand (_ : RefreshPolicy) : HbmCommand := .refreshAllBank

/-- `refresh_duration`. -/
def refreshDuration (policy : RefreshPolicy) (t : HbmTimingSpec) : Nat :=
  match policy with
  | .allBank => t.tRfc
  | .perBank => t.tRfcpb

/-! ### Command planning -/

namespace HbmCommandPlanner

/-- `next(requested, row, target_bank, any_bank_open)`. -/
def nextDecision (standard : Option HbmStandard) (requested : HbmCommand) (row : Nat)
    (targetBank : HbmBankState) (anyBankOpen : Bool) : Except HbmError CommandDecision :=
  match standard with
  | some s => s.resolvePrerequisite requested row targetBank anyBankOpen
  | none =>
      if requested = .refreshAllBank ∨ requested = .rfmAllBank then
        .ok (if anyBankOpen then ⟨.preAll, .channel, false⟩ else ⟨requested, .channel, true⟩)
      else if requested = .refreshPerBank ∨ requested = .rfmPerBank then
        .ok (if targetBank.openRow.isSome then ⟨.preBank, .bank, false⟩
          else ⟨requested, .bank, true⟩)
      else if targetBank.prechargePending ||
          CommandCondition.differentRow.holds row targetBank anyBankOpen then
        .ok ⟨.preBank, .bank, false⟩
      else if targetBank.openRow.isNone && requested.isData then
        .ok ⟨.act, .bank, false⟩
      else .ok ⟨requested, .bank, true⟩

/-- The data command an access asks for. -/
def requestedCommand (op : HbmOp) (autoPrecharge : Bool) : HbmCommand :=
  match op with
  | .read => if autoPrecharge then .readAuto else .read
  | .write => if autoPrecharge then .writeAuto else .write

/-- `next(op, row, bank, auto_precharge)`. -/
def next (standard : Option HbmStandard) (op : HbmOp) (row : Nat) (bank : HbmBankState)
    (autoPrecharge : Bool) : Except HbmError HbmCommand :=
  let requested := requestedCommand op autoPrecharge
  match standard with
  | none =>
      if bank.prechargePending || CommandCondition.differentRow.holds row bank false then
        .ok .preBank
      else if bank.openRow.isNone then .ok .act
      else .ok requested
  | some _ =>
      match nextDecision standard requested row bank bank.openRow.isSome with
      | .ok decision => .ok decision.command
      | .error e => .error e

end HbmCommandPlanner

/-! ### Request selection -/

inductive SchedulerKind where
  | frFcfs | frFcfsRowHit | fifo
deriving DecidableEq, Repr

structure SchedulerCandidate where
  queueIndex : Nat := 0
  isWrite : Bool := false
  command : DramCommand := .activate
  readyAt : Nat := 0
  sequence : Nat := 0
  rowHit : Bool := false
  dataCommand : Bool := false
  requestPriority : Nat := 0
deriving DecidableEq, Repr

namespace SchedulerKind

/-- The comparison `FrFcfsScheduler` passes to `std::min_element`. -/
def frFcfsLess (now : Nat) (left right : SchedulerCandidate) : Bool :=
  let leftReady := decide (left.readyAt ≤ now)
  let rightReady := decide (right.readyAt ≤ now)
  if leftReady ≠ rightReady then leftReady
  else if !leftReady && decide (left.readyAt ≠ right.readyAt) then
    decide (left.readyAt < right.readyAt)
  else if left.requestPriority ≠ right.requestPriority then
    decide (left.requestPriority > right.requestPriority)
  else
    let leftPriority := if left.dataCommand then (if left.rowHit then 3 else 2) else 1
    let rightPriority := if right.dataCommand then (if right.rowHit then 3 else 2) else 1
    if leftPriority ≠ rightPriority then decide (leftPriority > rightPriority)
    else decide (left.sequence < right.sequence)

/-- The comparison `FrFcfsRowHitScheduler` passes to `std::min_element`. -/
def frFcfsRowHitLess (now : Nat) (left right : SchedulerCandidate) : Bool :=
  let leftReady := decide (left.readyAt ≤ now)
  let rightReady := decide (right.readyAt ≤ now)
  if leftReady ≠ rightReady then leftReady
  else if !leftReady && decide (left.readyAt ≠ right.readyAt) then
    decide (left.readyAt < right.readyAt)
  else if left.requestPriority ≠ right.requestPriority then
    decide (left.requestPriority > right.requestPriority)
  else if left.rowHit ≠ right.rowHit then left.rowHit
  else decide (left.sequence < right.sequence)

/-- The comparison `FifoScheduler` passes to `std::min_element`. -/
def fifoLess (left right : SchedulerCandidate) : Bool :=
  decide (left.sequence < right.sequence)

def less (kind : SchedulerKind) (now : Nat) : SchedulerCandidate → SchedulerCandidate → Bool :=
  match kind with
  | .frFcfs => frFcfsLess now
  | .frFcfsRowHit => frFcfsRowHitLess now
  | .fifo => fifoLess

end SchedulerKind

/-- `std::min_element`: the first element no later element is less than. -/
def minElement {α : Type} (less : α → α → Bool) : List α → Option α
  | [] => none
  | a :: rest => some (rest.foldl (fun best x => if less x best then x else best) a)

/-- `scheduler_for(kind).choose(candidates, now)`. -/
def SchedulerKind.choose (kind : SchedulerKind) (candidates : List SchedulerCandidate)
    (now : Nat) : Option SchedulerCandidate :=
  minElement (kind.less now) candidates

theorem foldl_minElement_mem {α : Type} (less : α → α → Bool) (rest : List α) (a : α) :
    rest.foldl (fun best x => if less x best then x else best) a ∈ a :: rest := by
  induction rest generalizing a with
  | nil => simp
  | cons b rest ih =>
      have hmem := ih (if less b a then b else a)
      rw [List.foldl_cons]
      rcases List.mem_cons.mp hmem with heq | hmem
      · rw [heq]
        split <;> simp
      · exact List.mem_cons_of_mem _ (List.mem_cons_of_mem _ hmem)

/-- The selected element is one of the candidates. -/
theorem minElement_mem {α : Type} {less : α → α → Bool} {xs : List α} {a : α}
    (h : minElement less xs = some a) : a ∈ xs := by
  cases xs with
  | nil => simp [minElement] at h
  | cons b rest =>
      simp only [minElement, Option.some.injEq] at h
      exact h ▸ foldl_minElement_mem less rest b

/-- Nothing is selected only from an empty list. -/
theorem minElement_eq_none {α : Type} {less : α → α → Bool} {xs : List α} :
    minElement less xs = none ↔ xs = [] := by
  cases xs <;> simp [minElement]

end HbmSim
