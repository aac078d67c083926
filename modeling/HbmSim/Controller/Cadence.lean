import HbmSim.Controller.Sound

/-!
The refresh cadence.

A channel's refresh obligations are due at equal intervals from its first admission
on. `Cadenced` says that a controller has raised them one by one, in per-bank mode
bank after bank, and that its next due instant is the next one in line.
-/

namespace HbmSim

namespace HbmController

/-- No refresh has been scheduled. -/
structure Fresh (c : HbmController) : Prop where
  next : c.nextRefreshDue = none
  raised : c.raised = []
  raisedBanks : c.raisedBanks = []
  rotation : c.nextPerBankRefresh = 0

end HbmController

/-- The `count` due instants after `start`, latest first. -/
def dueInstants (start interval : Nat) : Nat → List Nat
  | 0 => []
  | count + 1 => (start + (count + 1) * interval) :: dueInstants start interval count

/-- The banks that `count` obligations visit in turn, latest first. -/
def bankVisits (banks : Nat) : Nat → List Nat
  | 0 => []
  | count + 1 => (count % banks) :: bankVisits banks count

/-- Refresh has run at every interval since `start`. -/
structure HbmController.Cadenced (config : HbmControllerConfig) (start : Nat)
    (c : HbmController) : Prop where
  next : c.nextRefreshDue = some (start + (c.raised.length + 1) * config.refreshInterval)
  raised : c.raised = dueInstants start config.refreshInterval c.raised.length
  rotation : config.refreshPolicy = .perBank →
    c.nextPerBankRefresh = c.raised.length % c.banks.length
  raisedBanks : config.refreshPolicy = .perBank →
    c.raisedBanks = bankVisits c.banks.length c.raised.length

/-- Refresh handling at `now` has kept the cadence, or a sum has left 64 bits. -/
structure KeepsCadence (config : HbmControllerConfig) (now : Nat) (c c' : HbmController) :
    Prop where
  kept : ∀ start, c.Cadenced config start → c'.wrapped = true ∨ c'.Cadenced config start
  first : c.Fresh → c'.wrapped = true ∨ c'.Fresh ∨ c'.Cadenced config now

/-- The members the cadence depends on are the same. -/
structure SameCadence (c c' : HbmController) : Prop where
  nextRefreshDue : c'.nextRefreshDue = c.nextRefreshDue
  raised : c'.raised = c.raised
  raisedBanks : c'.raisedBanks = c.raisedBanks
  rotation : c'.nextPerBankRefresh = c.nextPerBankRefresh
  banks : c'.banks.length = c.banks.length
  wrapped : c.wrapped = true → c'.wrapped = true

namespace SameCadence

variable {config : HbmControllerConfig} {c c' c'' : HbmController}

theorem refl (c : HbmController) : SameCadence c c := ⟨rfl, rfl, rfl, rfl, rfl, id⟩

theorem trans (h : SameCadence c c') (h' : SameCadence c' c'') : SameCadence c c'' :=
  ⟨h'.nextRefreshDue.trans h.nextRefreshDue, h'.raised.trans h.raised,
    h'.raisedBanks.trans h.raisedBanks, h'.rotation.trans h.rotation, h'.banks.trans h.banks,
    h'.wrapped ∘ h.wrapped⟩

theorem cadenced (h : SameCadence c c') {start : Nat} (cadenced : c.Cadenced config start) :
    c'.Cadenced config start := by
  constructor
  case next => rw [h.nextRefreshDue, h.raised, cadenced.next]
  case raised =>
    rw [h.raised]
    exact cadenced.raised
  case rotation =>
    rw [h.rotation, h.raised, h.banks]
    exact cadenced.rotation
  case raisedBanks =>
    rw [h.raisedBanks, h.raised, h.banks]
    exact cadenced.raisedBanks

theorem fresh (h : SameCadence c c') (fresh : c.Fresh) : c'.Fresh :=
  ⟨h.nextRefreshDue.trans fresh.next, h.raised.trans fresh.raised,
    h.raisedBanks.trans fresh.raisedBanks, h.rotation.trans fresh.rotation⟩

theorem keeps (h : SameCadence c c') (now : Nat) : KeepsCadence config now c c' :=
  ⟨fun _ cadenced => .inr (h.cadenced cadenced), fun fresh => .inr (.inl (h.fresh fresh))⟩

end SameCadence

namespace HbmController

variable {config : HbmControllerConfig} {c c' : HbmController}

/-- Advancing the due instant and raising the obligation commute. -/
theorem advanceDue_raise (c : HbmController) (base due : Nat) :
    (c.advanceDue config base).raise config due = (c.raise config due).advanceDue config base := by
  unfold raise advanceDue
  split <;> rfl

/-- The obligation due next is raised and the due instant advanced. -/
theorem Cadenced.raise {start due : Nat} (cadenced : c.Cadenced config start)
    (next : c.nextRefreshDue = some due) (same : SameCadence (c.raise config due) c') :
    (c'.advanceDue config due).wrapped = true ∨
      (c'.advanceDue config due).Cadenced config start := by
  have hdue : due = start + (c.raised.length + 1) * config.refreshInterval :=
    Option.some.inj (next.symm.trans cadenced.next)
  have raised : c'.raised = due :: c.raised := by
    rw [same.raised]
    unfold HbmController.raise
    split <;> rfl
  have banks : c'.banks.length = c.banks.length := by
    rw [same.banks]
    unfold HbmController.raise
    split
    · rfl
    · exact List.length_modify ..
  by_cases passed : 2 ^ 64 ≤ due + config.refreshInterval
  · left
    show (c'.wrapped || decide (2 ^ 64 ≤ due + config.refreshInterval)) = true
    rw [decide_eq_true passed, Bool.or_true]
  right
  have perBank : config.refreshPolicy = .perBank →
      c'.nextPerBankRefresh = (c.nextPerBankRefresh + 1) % c.banks.length ∧
        c'.raisedBanks = c.nextPerBankRefresh :: c.raisedBanks := by
    intro policy
    rw [same.rotation, same.raisedBanks]
    unfold HbmController.raise
    rw [policy]
    exact ⟨rfl, rfl⟩
  constructor
  case next =>
    show some (SimTime.add due config.refreshInterval) = some (start + (c'.raised.length + 1) * _)
    rw [SimTime.add_of_lt (by omega), raised, List.length_cons, hdue]
    congr 1
    rw [Nat.add_assoc, ← Nat.succ_mul]
  case raised =>
    show c'.raised = dueInstants start config.refreshInterval c'.raised.length
    rw [raised, List.length_cons, dueInstants, ← cadenced.raised, ← hdue]
  case rotation =>
    intro policy
    show c'.nextPerBankRefresh = c'.raised.length % c'.banks.length
    rw [(perBank policy).1, cadenced.rotation policy, raised, banks, List.length_cons,
      Nat.mod_add_mod]
  case raisedBanks =>
    intro policy
    show c'.raisedBanks = bankVisits c'.banks.length c'.raised.length
    rw [(perBank policy).2, raised, banks, List.length_cons, bankVisits,
      ← cadenced.raisedBanks policy, cadenced.rotation policy]

/-- The first admission sets the first due instant. -/
theorem Fresh.start {now : Nat} (fresh : c.Fresh) :
    (c.advanceDue config now).wrapped = true ∨ (c.advanceDue config now).Cadenced config now := by
  by_cases passed : 2 ^ 64 ≤ now + config.refreshInterval
  · left
    show (c.wrapped || decide (2 ^ 64 ≤ now + config.refreshInterval)) = true
    rw [decide_eq_true passed, Bool.or_true]
  right
  constructor
  case next =>
    show some (SimTime.add now config.refreshInterval) = some (now + (c.raised.length + 1) * _)
    rw [SimTime.add_of_lt (by omega), fresh.raised, List.length_nil, Nat.zero_add, Nat.one_mul]
  case raised =>
    show c.raised = dueInstants now config.refreshInterval c.raised.length
    rw [fresh.raised]
    rfl
  case rotation =>
    intro _
    show c.nextPerBankRefresh = c.raised.length % c.banks.length
    rw [fresh.rotation, fresh.raised]
    exact (Nat.zero_mod _).symm
  case raisedBanks =>
    intro _
    show c.raisedBanks = bankVisits c.banks.length c.raised.length
    rw [fresh.raisedBanks, fresh.raised]
    rfl

end HbmController

end HbmSim
