import HbmSim.Lib.Stays
import HbmSim.System.Actions
import HbmSim.System.Geometry
import HbmSim.System.Pumping
import HbmSim.System.Replay
import HbmSim.System.Running

/-!
A submission that is not accepted leaves no trace, unless an admission after it fails.

Before it accepts a transaction, `try_submit_now` only reads. What it has accepted it goes on
to admit, and an exception there leaves the transaction behind.
-/

namespace HbmSim

open HbmSim.Lib HbmSystem

/-- Nothing of a submission has reached the system, its statistics apart. -/
structure Untouched (s t : HbmSystem) : Prop where
  parents : t.parents = s.parents
  pendingAdmissions : t.pendingAdmissions = s.pendingAdmissions
  controllers : t.controllers = s.controllers
  nextAccessSequence : t.nextAccessSequence = s.nextAccessSequence
  scheduler : t.scheduler = s.scheduler
  pendingEvents : t.pendingEvents = s.pendingEvents

theorem Untouched.refl (s : HbmSystem) : Untouched s s := ⟨rfl, rfl, rfl, rfl, rfl, rfl⟩

/-- A submission is accepted or leaves the system as it was; at backpressure it counts the
rejection. -/
def SubmitsAtomically (cfg : HbmConfig) (s : HbmSystem) (tx : HbmTransaction) : Prop :=
  Exits (trySubmitNow cfg tx)
    (fun result t => result.status = .accepted ∨ (Untouched s t ∧ (t.stats = s.stats ∨
      (result.status = .backpressure ∧ ∃ channel, t.stats = (s.countRejection channel).stats))))
    (fun _ t => Untouched s t ∧ t.stats = s.stats) s

/-- The checks a submission passes before it is accepted. -/
structure Acceptable (cfg : HbmConfig) (s : HbmSystem) (tx : HbmTransaction) : Prop where
  id : tx.id ≠ 0
  sized : tx.sizeBytes ≠ 0
  arrived : tx.arrivalTime ≤ s.now
  fresh : (s.findParent tx.id).isSome = false
  fits : tx.sizeBytes - 1 ≤ maxSimTime - tx.address
  room : s.parents.length < cfg.controller.maxActiveTransactions
  slot : ∃ first, cfg.nextAccess tx 0 = .ok first ∧ first.address.flatChannel < cfg.channelCount ∧
    (s.controllers first.address.flatChannel).canReserve (cfg.channelConfig first.address.flatChannel)
      (tx.op == .read).toNat (!tx.op == .read).toNat = true

/-- A transaction passes the checks, and admitting the waiting ones and it in their order
fails. -/
def Tears (cfg : HbmConfig) (s : HbmSystem) (tx : HbmTransaction) : Prop :=
  Acceptable cfg s tx ∧
    ∃ e, (s.acceptTransaction tx).AdmissionFails cfg e [] (s.pendingAdmissions ++ [tx.id])

section

variable {cfg : HbmConfig} {s : HbmSystem} {tx : HbmTransaction}

/-- What a submission does. -/
theorem trySubmitNow_exits (s : HbmSystem) (tx : HbmTransaction) :
    Exits (trySubmitNow cfg tx)
      (fun result t => (result.status = .accepted ∧ Acceptable cfg s tx ∧
          pumpAdmissions cfg (s.acceptTransaction tx) = .ok () t) ∨
        t = s ∨ (result.status = .backpressure ∧ ∃ channel, t = s.countRejection channel))
      (fun e t => t = s ∨ (Acceptable cfg s tx ∧
        pumpAdmissions cfg (s.acceptTransaction tx) = .error e t)) s := by
  unfold trySubmitNow
  simp only [exits_bind, exits_get, exits_ite, exits_pure, exits_ofExcept, exits_modify]
  refine ⟨fun _ => .inr (.inl trivial), fun sized => ⟨fun _ => .inr (.inl trivial), fun arrived =>
    ⟨fun _ => .inr (.inl trivial), fun fresh => ⟨fun _ => .inr (.inl trivial), fun fits =>
      ⟨fun first next => ⟨fun _ => .inr (.inr ⟨trivial, _, rfl⟩), fun room => ?_⟩,
        fun _ _ => .inl trivial⟩⟩⟩⟩⟩
  by_cases within : first.address.flatChannel < cfg.channelCount
  · rw [onController_exits within]
    simp only [exits_bind, exits_get, exits_pure, update_side]
    refine ⟨fun _ => .inr (.inr ⟨trivial, _, rfl⟩), fun free => ?_⟩
    have acceptable : Acceptable cfg s tx :=
      ⟨fun h => sized (.inl h), fun h => sized (.inr h), Nat.not_lt.mp arrived,
        by simpa using fresh, Nat.not_lt.mp fits, Nat.not_le.mp room,
        first, next, within, by simpa using free⟩
    exact (Exits.self _ _).mono (fun _ t run => .inl ⟨trivial, acceptable, run⟩)
      fun _ t run => .inr ⟨acceptable, run⟩
  · unfold onController Exits
    simp only [if_neg within]
    exact .inl trivial

/-- A piece of work leaves every acceptance in place. -/
def KeepsParents (s t : HbmSystem) : Prop := t.parents.length = s.parents.length

instance : Std.Refl KeepsParents := ⟨fun _ => rfl⟩

instance : IsTrans HbmSystem KeepsParents := ⟨fun _ _ _ h h' => h'.trans h⟩

theorem onController_keeps {α : Type} (channel : Nat) (op : ControllerM α) :
    Stays KeepsParents (onController cfg channel op) := by
  intro s
  unfold onController
  split
  · cases op ⟨s.controllers channel, s.stats⟩ <;> rfl
  · rfl

theorem scheduleEvent_keeps (at_ : Nat) (callback : EventCallback) :
    Stays KeepsParents (scheduleEvent at_ callback) := by
  unfold scheduleEvent
  refine .bind .get fun s => .bind (.ofExcept _) fun scheduled => ?_
  exact .modify fun _ => rfl

theorem scheduleControllerWake_keeps (channel at_ : Nat) :
    Stays KeepsParents (scheduleControllerWake cfg channel at_) := by
  unfold scheduleControllerWake
  refine .bind .get fun s => .bind (onController_keeps _ _) fun needed => ?_
  exact .ite (fun _ => scheduleEvent_keeps _ _) fun _ => .pure _

theorem scheduleRefreshDue_keeps (channel : Nat) :
    Stays KeepsParents (scheduleRefreshDue cfg channel) := by
  unfold scheduleRefreshDue
  refine .bind (onController_keeps _ _) fun due => ?_
  cases due with
  | none => exact .pure _
  | some due => exact scheduleEvent_keeps _ _

theorem admitAccess_keeps (parent : ParentRequest) (access : HbmAccess) :
    Stays KeepsParents (admitAccess cfg parent access) := by
  unfold admitAccess
  refine .bind (onController_keeps _ _) fun _ => .getBind fun s => ?_
  exact Stays.setBind (List.length_map _) (onController_keeps _ _)

theorem admitParent_keeps (id rounds : Nat) (touched : List Nat) :
    Stays KeepsParents (admitParent cfg id rounds touched) := by
  induction rounds generalizing touched with
  | zero =>
      unfold admitParent
      refine .bind .get fun s => ?_
      cases s.findParent id with
      | none => exact .throw _
      | some parent => exact .ite (fun _ => .throw _) fun _ => .pure _
  | succ rounds ih =>
      unfold admitParent
      refine .bind .get fun s => ?_
      cases s.findParent id with
      | none => exact .throw _
      | some parent =>
          refine .ite (fun _ => ?_) fun _ => .pure _
          refine .bind (.ofExcept _) fun access => .bind (onController_keeps _ _) fun free => ?_
          refine .ite (fun _ => .pure _) fun _ => ?_
          exact .bind (admitAccess_keeps _ _) fun _ => ih _

theorem admitPending_keeps (pending touched : List Nat) :
    Stays KeepsParents (admitPending cfg pending touched) := by
  induction pending generalizing touched with
  | nil => exact .pure _
  | cons id rest ih =>
      unfold admitPending
      refine .bind .get fun s => .bind (admitParent_keeps _ _ _) fun touched => ?_
      refine .bind (.modify fun s => ?_) fun _ => ih _
      split
      · split <;> rfl
      · rfl

theorem wakeTouched_keeps (touched channels : List Nat) :
    Stays KeepsParents (wakeTouched cfg touched channels) := by
  induction channels with
  | nil => exact .pure _
  | cons channel rest ih =>
      unfold wakeTouched
      refine .ite (fun _ => ?_) fun _ => ih
      refine .bind (scheduleRefreshDue_keeps _) fun _ => .bind .get fun s => ?_
      exact .bind (scheduleControllerWake_keeps _ _) fun _ => ih

theorem pumpAdmissions_keeps : Stays KeepsParents (pumpAdmissions cfg) := by
  unfold pumpAdmissions
  refine .bind .get fun s => .bind (admitPending_keeps _ _) fun touched => ?_
  exact wakeTouched_keeps _ _

/-- Whatever ends an admission that throws, the transaction stays behind. -/
theorem not_untouched_of_error {e : HbmError} {t : HbmSystem}
    (run : pumpAdmissions cfg (s.acceptTransaction tx) = .error e t) : ¬ Untouched s t := by
  intro untouched
  have length : t.parents.length = (s.acceptTransaction tx).parents.length :=
    pumpAdmissions_keeps.of_error run
  rw [untouched.parents] at length
  simp [acceptTransaction] at length

/-- An exception of its admission escapes from the submission. -/
theorem Acceptable.thrown {e : HbmError} {t : HbmSystem} (acceptable : Acceptable cfg s tx)
    (run : pumpAdmissions cfg (s.acceptTransaction tx) = .error e t) :
    Exits (trySubmitNow cfg tx) (fun _ _ => False) (fun _ t' => t' = t) s := by
  obtain ⟨id, sized, arrived, fresh, fits, room, first, next, within, free⟩ := acceptable
  unfold trySubmitNow
  simp only [exits_bind, exits_get, exits_ite, exits_pure, exits_ofExcept, exits_modify, next]
  refine ⟨fun none => (none.elim id sized).elim, fun _ =>
    ⟨fun late => (late.not_ge arrived).elim, fun _ =>
    ⟨fun used => ?_, fun _ => ⟨fun wraps => (wraps.not_ge fits).elim, fun _ =>
      ⟨?_, fun _ error => ?_⟩⟩⟩⟩⟩
  · rw [fresh] at used
    cases used
  · rintro _ ⟨⟩
    refine ⟨fun full => (full.not_gt room).elim, fun _ => ?_⟩
    rw [onController_exits within]
    simp only [exits_bind, exits_get, exits_pure, update_side, side_ctl, free, Bool.not_true,
      Bool.false_eq_true]
    refine ⟨False.elim, fun _ => ?_⟩
    unfold Exits
    rw [run]
  · cases error

/-- Admitting an accepted transaction throws if and only if the state before says so. -/
theorem Acceptable.pump_fails (checked : cfg.Checked) (count : cfg.channelCount ≠ 0) {d : Debts}
    (run : Run cfg (s, d)) (tx : HbmTransaction) :
    Exits (pumpAdmissions cfg)
      (fun _ _ =>
        ∀ e, ¬ (s.acceptTransaction tx).AdmissionFails cfg e [] (s.pendingAdmissions ++ [tx.id]))
      (fun e _ =>
        (s.acceptTransaction tx).AdmissionFails cfg e [] (s.pendingAdmissions ++ [tx.id]))
      (s.acceptTransaction tx) :=
  pumpAdmissions_fails (s := s.acceptTransaction tx) checked count fun off channel =>
    run.never checked off channel

/-- In every run a submission is atomic unless it tears. -/
theorem submits_atomically (checked : cfg.Checked) (count : cfg.channelCount ≠ 0) {d : Debts}
    (run : Run cfg (s, d)) (tx : HbmTransaction) :
    SubmitsAtomically cfg s tx ↔ ¬ Tears cfg s tx := by
  have pump := Acceptable.pump_fails checked count run tx
  constructor
  · rintro atomic ⟨acceptable, e, fails⟩
    cases ends : pumpAdmissions cfg (s.acceptTransaction tx) with
    | ok _ t => exact pump.of_ok ends e fails
    | error e t =>
        have both := atomic.and (acceptable.thrown ends)
        unfold Exits at both
        split at both
        · exact both.2
        · obtain ⟨⟨untouched, -⟩, rfl⟩ := both
          exact not_untouched_of_error ends untouched
  · intro calm
    refine (trySubmitNow_exits s tx).mono (fun result t h => ?_) fun e t h => ?_
    · rcases h with ⟨accepted, -⟩ | rfl | ⟨rejected, channel, rfl⟩
      · exact .inl accepted
      · exact .inr ⟨.refl _, .inl rfl⟩
      · exact .inr ⟨⟨rfl, rfl, rfl, rfl, rfl, rfl⟩, .inr ⟨rejected, channel, rfl⟩⟩
    · rcases h with rfl | ⟨acceptable, ends⟩
      · exact ⟨.refl _, rfl⟩
      · exact absurd ⟨acceptable, e, pump.of_error ends⟩ calm

/-- Where every address maps, a submission is torn only by a time that does not fit. -/
theorem Tears.overflows (reached : Reachable cfg NoEscape s) (covered : cfg.Covered)
    (tears : Tears cfg s tx) :
    ∃ e t, trySubmitNow cfg tx s = .error e t ∧ (e.isOverflow = true ∨ Overflowed cfg t) := by
  obtain ⟨acceptable, e, fails⟩ := tears
  obtain ⟨valid, count, d, point, excuse⟩ := reached.point
  have alive : d.escaped = false := by
    cases lost : d.escaped with
    | false => rfl
    | true =>
        obtain ⟨_, escapes, -⟩ := excuse lost
        exact escapes.elim
  have pump := Acceptable.pump_fails valid.checked count point.run tx
  cases thrown : pumpAdmissions cfg (s.acceptTransaction tx) with
  | ok _ t => exact absurd fails (pump.of_ok thrown e)
  | error e t =>
  have leads := perform_leads valid.checked count (.call (.trySubmitNow tx)) point
  unfold perform runClient at leads
  simp only [exits_bind] at leads
  have ends := leads.and (acceptable.thrown thrown)
  unfold Exits at ends
  split at ends
  · exact ends.2.elim
  · rename_i e' t' run
    refine ⟨e', t', run, ?_⟩
    obtain ⟨⟨-, excusable, -⟩, -⟩ := ends
    rcases excusable with overflow | passed | ⟨-, irregular⟩ | ⟨-, lost⟩
    · exact .inl overflow
    · exact .inr passed
    · exact absurd covered irregular
    · rw [alive] at lost
      cases lost

/-- In every state of every run a submission is atomic unless it is torn: the transaction passes
the checks, and a piece of a waiting transaction or of its own that gets its turn has no address,
or finds a slot on a channel whose refreshes cannot be made up for. On a device that covers its
addresses the latter takes a time that does not fit. -/
theorem submission_atomic (valid : cfg.Valid) (count : cfg.channelCount ≠ 0) {d : Debts}
    (run : Run cfg (s, d)) (tx : HbmTransaction) :
    (SubmitsAtomically cfg s tx ↔ ¬ Tears cfg s tx) ∧
      (Reachable cfg NoEscape s → cfg.Covered → Tears cfg s tx →
        ∃ e t, trySubmitNow cfg tx s = .error e t ∧ (e.isOverflow = true ∨ Overflowed cfg t)) :=
  ⟨submits_atomically valid.checked count run tx, Tears.overflows⟩

/-- HBM2 with a refresh interval of almost half the clock. -/
def HbmConfig.lateRefresh : HbmConfig :=
  { HbmConfig.hbm2_2000 with controller := { refreshInterval := 0x7FFFFFFFFFFFF63C } }

/-- The submission of a read throws and leaves a parent behind. -/
def leavesParent (cfg : HbmConfig) (s : HbmSystem) (tx : HbmTransaction) : Bool :=
  match trySubmitNow cfg tx s with
  | .ok _ _ => false
  | .error _ t => t.parents.length != s.parents.length

/-- A parent left behind shows that it was not atomic. -/
theorem not_atomic_of_leavesParent (leaves : leavesParent cfg s tx = true) :
    ¬ SubmitsAtomically cfg s tx := by
  intro atomic
  unfold leavesParent at leaves
  split at leaves
  · cases leaves
  · rename_i e t run
    have untouched := (atomic.of_error run).1
    simp [untouched.parents] at leaves

/-- A bank is open when the second refresh falls due, too late for the precharge it needs. A
submission at that instant is accepted and then torn. -/
theorem submission_atomic_late : ∃ s : HbmSystem,
    ¬ SubmitsAtomically .lateRefresh s (.read 3 0 32) ∧
    Tears .lateRefresh s (.read 3 0 32) ∧
      ∃ e t, trySubmitNow .lateRefresh (.read 3 0 32) s = .error e t ∧
        (e.isOverflow = true ∨ Overflowed .lateRefresh t) := by
  obtain ⟨s, reached, leaves⟩ := exists_reachable .lateRefresh NoEscape
    (submit (.read 1 0 32) :: dispatches 5 ++
      .call (.scheduleAt 0xFFFFFFFFFFFFEC78 0) :: dispatches 3 ++
        .advance 0xFFFFFFFFFFFF5038 :: submit (.read 2 0 32) :: dispatches 6)
    (leavesParent .lateRefresh · (.read 3 0 32)) (by decide) (by decide) (by decide +kernel)
  obtain ⟨valid, count, d, point, -⟩ := reached.point
  obtain ⟨iff_, overflows⟩ := submission_atomic valid count point.run (.read 3 0 32)
  have torn := not_atomic_of_leavesParent leaves
  have tears : Tears .lateRefresh s (.read 3 0 32) := not_not.mp fun calm =>
    torn (iff_.mpr calm)
  exact ⟨s, torn, tears, overflows reached (HbmConfig.covered_of_standard rfl) tears⟩

/-- A transaction is accepted and its first piece is admitted when its second piece turns out
not to map: the exception leaves all that behind. -/
theorem submission_torn :
    ¬ ∀ (cfg : HbmConfig) (s : HbmSystem) (tx : HbmTransaction), Reachable cfg NoEscape s →
      SubmitsAtomically cfg s tx := by
  intro claim
  have atomic := claim (.shortRows {}) _ (.read 1 32672 128)
    (reachable_initial (by decide) (by decide))
  have torn : (match trySubmitNow (.shortRows {}) (.read 1 32672 128) (initial (.shortRows {})) with
    | .ok _ _ => 0
    | .error _ t => t.parents.length) = 1 := by decide +kernel
  unfold SubmitsAtomically Exits at atomic
  split at torn <;> rename_i run
  · cases torn
  · rw [run] at atomic
    rw [atomic.1.parents] at torn
    cases torn

end

end HbmSim
