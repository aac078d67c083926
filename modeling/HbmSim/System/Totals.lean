import HbmSim.System.Classes
import HbmSim.System.Conservation
import HbmSim.System.Draining

/-!
The totals over completed transactions.

An active transaction keeps what it asks for until it completes and is counted. A counter of
completed transactions and what it still will count of the active ones are therefore the sum
over the accepted transactions.
-/

namespace HbmSim

open HbmSim.Lib HbmSystem

/-- The counters of completed transactions agree. -/
structure SameTotals (a b : HbmStats) : Prop where
  completed : b.completedTransactions = a.completedTransactions
  reads : b.readBytes = a.readBytes
  writes : b.writeBytes = a.writeBytes

theorem SameTotals.refl (stats : HbmStats) : SameTotals stats stats := ⟨rfl, rfl, rfl⟩

theorem SameTotals.trans {a b c : HbmStats} (h : SameTotals a b) (h' : SameTotals b c) :
    SameTotals a c :=
  ⟨h'.completed.trans h.completed, h'.reads.trans h.reads, h'.writes.trans h.writes⟩

/-- A counter of the statistics over completed transactions. -/
structure TransactionCounter where
  value : HbmStats → Nat
  weight : HbmTransaction → Nat
  retire : ∀ (cfg : HbmConfig) (s : HbmSystem) request, value (s.retireParent cfg request).stats =
    value s.stats + weight request.transaction
  same : ∀ {a b : HbmStats}, SameTotals a b → value b = value a
  start : value {} = 0

namespace TransactionCounter

def completed : TransactionCounter where
  value := (·.completedTransactions)
  weight _ := 1
  retire _ _ _ := rfl
  same h := h.completed
  start := rfl

def readBytes : TransactionCounter where
  value := (·.readBytes)
  weight tx := if tx.op == .read then tx.sizeBytes else 0
  retire _ _ _ := rfl
  same h := h.reads
  start := rfl

def writeBytes : TransactionCounter where
  value := (·.writeBytes)
  weight tx := if tx.op == .read then 0 else tx.sizeBytes
  retire _ _ _ := rfl
  same h := h.writes
  start := rfl

/-- What the counter is over some transactions. -/
def sum (k : TransactionCounter) (transactions : List HbmTransaction) : Nat :=
  (transactions.map k.weight).sum

theorem sum_cons (k : TransactionCounter) (tx : HbmTransaction) (rest : List HbmTransaction) :
    k.sum (tx :: rest) = k.weight tx + k.sum rest := List.sum_cons

/-- The order does not matter. -/
theorem sum_reverse (k : TransactionCounter) (transactions : List HbmTransaction) :
    k.sum transactions.reverse = k.sum transactions := by
  unfold sum
  rw [List.map_reverse, List.sum_reverse]

/-- Completed transactions count one each. -/
theorem sum_completed (transactions : List HbmTransaction) :
    completed.sum transactions = transactions.length := by
  unfold sum completed
  simp

/-- Read bytes are the sizes of the reads. -/
theorem sum_readBytes (transactions : List HbmTransaction) : readBytes.sum transactions =
    ((transactions.filter fun tx => tx.op == .read).map (·.sizeBytes)).sum := by
  induction transactions with
  | nil => rfl
  | cons tx rest ih =>
      rw [sum_cons, ih]
      cases op : tx.op <;> simp [readBytes, op]

/-- Written bytes are the sizes of the writes. -/
theorem sum_writeBytes (transactions : List HbmTransaction) : writeBytes.sum transactions =
    ((transactions.filter fun tx => tx.op == .write).map (·.sizeBytes)).sum := by
  induction transactions with
  | nil => rfl
  | cons tx rest ih =>
      rw [sum_cons, ih]
      cases op : tx.op <;> simp [writeBytes, op]

end TransactionCounter

/-! ### Controllers -/

section

open HbmController

variable {config : HbmControllerConfig} {mapper : HbmAddressMapper} {s t : ControllerState}
  {now : Nat}

variable (config) in

theorem countStarts_totals (stats : HbmStats) (items : List HbmAccess) (at_ : Nat) :
    SameTotals stats (countStarts config stats items at_) := by
  unfold countStarts
  split <;> exact ⟨rfl, rfl, rfl⟩

variable (config) in

theorem countCommand_totals (stats : HbmStats) (r : RecordedCommand) :
    SameTotals stats (countCommand config stats r) := by
  obtain ⟨k⟩ := r
  cases k <;> exact ⟨rfl, rfl, rfl⟩

theorem issue_totals (stats : HbmStats) (items : List HbmAccess) (at_ : Nat) (r : RecordedCommand) :
    SameTotals stats (countCommand config (countStarts config stats items at_) r) :=
  (countStarts_totals config stats items at_).trans (countCommand_totals config _ r)

theorem HbmController.MaintenanceStep.totals {candidate : MaintenanceCandidate} {time : Nat}
    (step : MaintenanceStep config mapper now s candidate time t) : SameTotals s.stats t.stats := by
  cases step with
  | @mk _ address =>
      have counted := countCommand_totals config s.stats
        ⟨candidate.command, address, candidate.localBank, time, none⟩
      unfold maintained
      dsimp only
      split
      · refine counted.trans ?_
        unfold countMaintenance
        split <;> exact ⟨rfl, rfl, rfl⟩
      · exact counted

/-- A step of a controller completes no transaction. -/
theorem HbmController.ControllerStep.totals (step : ControllerStep config mapper now s t) :
    SameTotals s.stats t.stats := by
  cases step with
  | retouch touched =>
      obtain ⟨f, -, hf⟩ := touched.stats
      rw [hf]
      exact ⟨rfl, rfl, rfl⟩
  | raise => exact .refl _
  | advanceDue => exact .refl _
  | maintain step => exact step.totals
  | row step =>
      cases step with
      | activate =>
          rw [activatedState_stats]
          exact issue_totals _ _ _ _
      | precharge =>
          rw [prechargedState_stats]
          exact issue_totals _ _ _ _

theorem HbmController.DataStep.totals {physical : PhysicalAccess}
    (step : DataStep config mapper now s physical t) : SameTotals s.stats t.stats := by
  cases step with
  | @mk w index bankIndex busReady duration a command priority banks slot =>
      obtain ⟨completed, reads, writes⟩ := @issue_totals config s.stats [a] now
        ⟨command, a.address, bankIndex, now, some a.sequence⟩
      have starts := countStarts_totals config (takenState config s w index a
        ⟨command, a.address, bankIndex, now, some a.sequence⟩ banks).stats
          (takeAccesses config (commandIssued config s w index a
            ⟨command, a.address, bankIndex, now, some a.sequence⟩).ctl w index (leader a now)).1
              slot.issuedAt
      exact ⟨starts.completed.trans completed, starts.reads.trans reads,
        starts.writes.trans writes⟩

theorem HbmController.LostStep.totals {lost : List LogicalAccess}
    (step : LostStep config mapper now s lost t) : SameTotals s.stats t.stats := by
  cases step with
  | @mk w index bankIndex a command =>
      obtain ⟨completed, reads, writes⟩ := @issue_totals config s.stats [a] now
        ⟨command, a.address, bankIndex, now, some a.sequence⟩
      exact ⟨completed, reads, writes⟩

end

/-! ### Runs -/

section

variable {cfg : HbmConfig} {s t : HbmSystem} {d : Debts} (k : TransactionCounter)

/-- The active transactions. -/
def HbmSystem.active (s : HbmSystem) : List HbmTransaction := s.parents.map (·.transaction)

/-- The counter and what the active transactions add to it are the accepted ones' sum. -/
def Totaled (s : HbmSystem) : Prop :=
  k.value s.stats + k.sum s.active = k.sum (acceptedTransactions s.trace)

variable {k}

/-- The totals and what they count are unchanged. -/
theorem Totaled.keep (h : Totaled k s) (stats : SameTotals s.stats t.stats)
    (active : t.active = s.active) (accepted : acceptedTransactions t.trace =
      acceptedTransactions s.trace) : Totaled k t := by
  unfold Totaled at *
  rw [k.same stats, active, accepted, h]

/-- A change of a parent that leaves its transaction as it is. -/
theorem modifyParent_active (s : HbmSystem) (id : Nat) {f : ParentRequest → ParentRequest}
    (same : ∀ p ∈ s.parents, p.transaction.id = id → (f p).transaction = p.transaction) :
    (s.modifyParent id f).active = s.active := by
  unfold modifyParent active
  rw [List.map_map]
  apply List.map_congr_left
  intro p hp
  rw [Function.comp_apply]
  split
  · exact same p hp ‹_›
  · rfl

/-- Crediting an access leaves the transaction. -/
theorem creditAccess_transaction (request : ParentRequest) (access : LogicalCompletion)
    (channel completionTime : Nat) :
    (creditAccess request access channel completionTime).transaction = request.transaction := by
  unfold creditAccess
  dsimp only
  split <;> rfl

/-- Crediting an access leaves the active transactions. -/
theorem credit_active {channel : Nat} {access : LogicalCompletion} {parent : ParentRequest}
    (ids : (s.parents.map (·.transaction.id)).Nodup)
    (found : s.findParent access.parentId = some parent) :
    (s.credit cfg channel access parent).active = s.active := by
  obtain ⟨mem, id⟩ := findParent_some found
  refine modifyParent_active (s.update channel _) access.parentId fun p hp same => ?_
  rw [creditAccess_transaction, List.inj_on_of_nodup_map ids hp mem (same.trans id.symm)]

/-- A completed transaction is counted. -/
theorem Totaled.retire (h : Totaled k s) {parent : ParentRequest}
    (ids : (s.parents.map (·.transaction.id)).Nodup)
    (found : s.findParent parent.transaction.id = some parent) :
    Totaled k (s.retireParent cfg parent) := by
  obtain ⟨mem, -⟩ := findParent_some found
  have fewer := sum_map_filter (g := k.weight ∘ (·.transaction)) ids mem
  have parents : (s.retireParent cfg parent).parents =
      s.parents.filter fun p => decide (p.transaction.id ≠ parent.transaction.id) := by
    apply List.filter_congr
    intro p _
    show (p.transaction.id != parent.transaction.id) = _
    rw [Bool.eq_iff_iff]
    simp
  have accepted : acceptedTransactions (s.retireParent cfg parent).trace =
    acceptedTransactions s.trace := rfl
  unfold Totaled TransactionCounter.sum active at *
  rw [List.map_map] at h ⊢
  rw [k.retire, accepted, parents, ← h, ← fewer, Function.comp_apply]
  omega

/-- An accepted transaction is active. -/
theorem Totaled.accept (h : Totaled k s) (tx : HbmTransaction) :
    Totaled k (s.acceptTransaction tx) := by
  have value : k.value (s.acceptTransaction tx).stats = k.value s.stats := k.same ⟨rfl, rfl, rfl⟩
  have accepted : acceptedTransactions (s.acceptTransaction tx).trace =
    tx :: acceptedTransactions s.trace := rfl
  have active : (s.acceptTransaction tx).active = s.active ++ [tx] := List.map_append
  unfold Totaled TransactionCounter.sum at *
  rw [value, accepted, active]
  simp only [List.map_append, List.sum_append, List.map_cons, List.map_nil, List.sum_cons,
    List.sum_nil]
  omega

/-- Every move keeps the totals. -/
theorem Totaled.move {p q : HbmSystem × Debts} (move : Move cfg p q) (accounted : Accounted p.1 p.2)
    (h : Totaled k p.1) : Totaled k q.1 := by
  cases move with
  | control hchannel step => exact h.keep step.totals rfl rfl
  | stir hchannel step => exact h.keep step.totals rfl rfl
  | transfer hchannel step => exact h.keep step.totals rfl rfl
  | accept => exact h.accept _
  | @charge s d parent access =>
      refine h.keep ⟨rfl, rfl, rfl⟩ ?_ rfl
      exact modifyParent_active (s.update _ _) _ fun _ _ _ => rfl
  | @push s d access =>
      obtain ⟨f, hf⟩ := push_stats cfg s access
      refine h.keep ?_ rfl rfl
      rw [hf]
      exact ⟨rfl, rfl, rfl⟩
  | @credit s d channel access parent _ _ _ found =>
      refine h.keep ?_ (credit_active accounted.family.ids found) rfl
      obtain ⟨l, class_⟩ := access
      cases class_ <;> exact ⟨rfl, rfl, rfl⟩
  | retire found => exact h.retire accounted.family.ids found
  | _ => exact h.keep ⟨rfl, rfl, rfl⟩ rfl rfl

/-- Every turn keeps the totals. -/
theorem Totaled.turn {p q : HbmSystem × Debts} (turn : Turn cfg p q) (h : Totaled k p.1) :
    Totaled k q.1 := by
  cases turn with
  | lose hchannel step => exact h.keep step.totals rfl rfl
  | _ => exact h.keep (.refl _) rfl rfl

/-- In every run a counter of completed transactions lacks what the active ones add to it. -/
theorem HbmSystem.Run.totaled (checked : cfg.Checked) (k : TransactionCounter)
    {p : HbmSystem × Debts} (run : Run cfg p) : Totaled k p.1 := by
  induction run with
  | create =>
      have same : SameTotals {} (initial cfg).stats := ⟨rfl, rfl, rfl⟩
      exact (k.same same).trans k.start
  | move run move ih => exact ih.move move (run.accounted checked)
  | turn _ turn ih => exact ih.turn turn

end

end HbmSim
