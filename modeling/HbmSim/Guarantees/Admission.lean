import HbmSim.System.Quiescence
import HbmSim.System.Replay

/-!
Admission.

Transactions and accesses are admitted within the capacities, in order of acceptance:
a transaction waits only while the queue of its next access is full, and a slot is
never given past an older transaction that waits for it.
-/

namespace HbmSim

open HbmSim.Lib HbmSystem

/-- The slot an access is given is one that no older transaction waits for. -/
def Fair (cfg : HbmConfig) : Observation → List Observation → Prop
  | .admitted ticket channel access _, earlier =>
      ∀ older < ticket, ¬ Completed earlier older → ∀ tx at_, .accepted older tx at_ ∈ earlier →
        admittedBytes earlier older < tx.sizeBytes →
          ∀ next, cfg.nextAccess tx (admittedBytes earlier older) = .ok next →
            ¬ (next.address.flatChannel = channel ∧ next.op = access.op)
  | _, _ => True

/-- What holds of admission after every call and every event. -/
structure WellAdmitted (cfg : HbmConfig) (s : HbmSystem) : Prop where
  active : s.parents.length ≤ cfg.controller.maxActiveTransactions
  reads : ∀ channel, cfg.controller.readQueueCapacity ≠ 0 →
    (s.controllers channel).readQueue.length + (s.controllers channel).reservedReads ≤
      cfg.controller.readQueueCapacity
  writes : ∀ channel, cfg.controller.writeQueueCapacity ≠ 0 →
    (s.controllers channel).writeQueue.length + (s.controllers channel).reservedWrites ≤
      cfg.controller.writeQueueCapacity
  reserved : ∀ channel, (s.controllers channel).reservedReads = 0 ∧
    (s.controllers channel).reservedWrites = 0
  /-- The parents stand in the order of their acceptance. -/
  order : (s.parents.map (·.ticket)).Pairwise (· < ·)
  pending : s.pendingAdmissions =
    (s.parents.filter fun p => p.admittedBytes < p.transaction.sizeBytes).map (·.transaction.id)
  distinct : s.pendingAdmissions.Nodup
  blocked : ∀ p ∈ s.parents, p.admittedBytes < p.transaction.sizeBytes → s.Blocked cfg p
  sorted : ∀ channel, ((s.controllers channel).readQueue.map (·.sequence)).Pairwise (· < ·) ∧
    ((s.controllers channel).writeQueue.map (·.sequence)).Pairwise (· < ·)
  fair : Chronicle (Fair cfg) s.trace

section

variable {cfg : HbmConfig} {s : HbmSystem} {d : Debts}

/-- A ticket names one transaction. -/
theorem accepted_unique {trace : List Observation} (legit : Chronicle Legit trace)
    {ticket at_ at' : Nat} {tx tx' : HbmTransaction} (h : .accepted ticket tx at_ ∈ trace)
    (h' : .accepted ticket tx' at' ∈ trace) : tx = tx' := by
  induction trace with
  | nil => cases h
  | cons o rest ih =>
      obtain ⟨first, earlier⟩ := chronicle_cons.mp legit
      have later : ∀ {tx₁ tx₂ : HbmTransaction} {at₁ at₂ : Nat},
          Observation.accepted ticket tx₁ at₁ = o → .accepted ticket tx₂ at₂ ∈ rest → False := by
        rintro tx₁ tx₂ at₁ at₂ rfl mem
        exact Nat.lt_irrefl _ (first _ mem ticket rfl)
      rcases List.mem_cons.mp h with same | mem
      · rcases List.mem_cons.mp h' with same' | mem'
        · cases same.trans same'.symm
          rfl
        · exact (later same mem').elim
      · rcases List.mem_cons.mp h' with same' | mem'
        · exact (later same' mem).elim
        · exact ih earlier mem mem'

/-- A waiting parent older than the one that is served has been looked at. -/
theorem looked_at (checked : cfg.Checked) (run : Run cfg (s, d)) (alive : d.escaped = false)
    {parent older : ParentRequest} {done rest : List Nat} (mem : parent ∈ s.parents)
    (mem' : older ∈ s.parents) (lt : older.ticket < parent.ticket)
    (waiting : s.pendingAdmissions = done ++ parent.transaction.id :: rest)
    (unfinished : older.admittedBytes < older.transaction.sizeBytes) :
    older.transaction.id ∈ done := by
  have family := (run.accounted checked).family
  have waits := ((run.waiting checked).resolve_left (by simp [alive])).pending
  have split := waits.symm.trans waiting
  obtain ⟨before, after, parts, hbefore, hafter⟩ := List.map_eq_append_iff.mp split
  obtain ⟨p, after, rfl, same, -⟩ := List.map_eq_cons_iff.mp hafter
  have members : ∀ q ∈ before ++ p :: after, q ∈ s.parents := fun q hq =>
    (List.mem_filter.mp (parts ▸ hq : q ∈ s.parents.filter d.waits)).1
  obtain rfl := family.eq_of_id (members p (by simp)) mem same
  have ordered : ((before ++ p :: after).map (·.ticket)).Pairwise (· < ·) := by
    rw [← parts]
    exact family.tickets.sublist (List.filter_sublist.map _)
  have here : older ∈ before ++ p :: after := by
    rw [← parts]
    exact List.mem_filter.mpr ⟨mem', by simp [Debts.waits, unfinished]⟩
  rw [← hbefore]
  refine List.mem_map_of_mem ?_
  rcases List.mem_append.mp here with first | later
  · exact first
  · rw [List.map_append, List.pairwise_append] at ordered
    rcases List.mem_cons.mp later with rfl | later
    · exact absurd lt (Nat.lt_irrefl _)
    · have above := (List.pairwise_cons.mp ordered.2.1).1 older.ticket (List.mem_map_of_mem later)
      exact absurd lt (Nat.lt_asymm above)

/-- While no exception has escaped, every slot was given fairly. -/
theorem HbmSystem.Run.fair (checked : cfg.Checked) {p : HbmSystem × Debts} (run : Run cfg p) :
    p.2.escaped = true ∨ Chronicle (Fair cfg) p.1.trace := by
  -- an observation that admits nothing
  have silent : ∀ {o : Observation} {s t : HbmSystem}, Chronicle (Fair cfg) s.trace →
      t.trace = o :: s.trace → o.number? = none → Chronicle (Fair cfg) t.trace := by
    intro o s t h trace other
    rw [trace]
    refine chronicle_cons.mpr ⟨?_, h⟩
    cases o with
    | admitted => cases other
    | _ => trivial
  induction run with
  | create => exact .inr Chronicle.nil
  | move run move ih =>
      rcases ih with lost | ih
      · exact .inl (move.escaped.trans lost)
      cases move with
      | transfer => exact .inr (silent ih rfl rfl)
      | accept => exact .inr (silent ih rfl rfl)
      | @charge s d parent access done rest _ found waiting older _ _ free =>
          by_cases lost : d.escaped = true
          · exact .inl lost
          have alive : d.escaped = false := by simpa using lost
          have family := (run.accounted checked).family
          obtain ⟨mem, -⟩ := findParent_some found
          refine .inr (chronicle_cons.mpr ⟨?_, ih⟩)
          intro ticket lt active tx at_ accepted unfinished next hnext same
          have accepted : .accepted ticket tx at_ ∈ s.trace := accepted
          obtain ⟨p, hp, rfl⟩ := (family.settled ticket tx at_ accepted).resolve_right active
          obtain ⟨at', accepted'⟩ := family.accepted p hp
          obtain rfl := accepted_unique family.legit accepted accepted'
          have bytes : admittedBytes s.trace p.ticket = p.admittedBytes :=
            (family.admitted p hp).symm
          have unfinished : admittedBytes s.trace p.ticket < p.transaction.sizeBytes := unfinished
          have hnext : cfg.nextAccess p.transaction (admittedBytes s.trace p.ticket) = .ok next :=
            hnext
          rw [bytes] at unfinished hnext
          have seen := looked_at checked run alive mem hp lt waiting unfinished
          obtain ⟨next', hnext', full⟩ := ((run.waiting checked).resolve_left lost).blocked p hp
            unfinished (older.resolve_left lost _ seen)
          obtain rfl := Except.ok.inj (hnext.symm.trans hnext')
          rw [same.1, same.2] at full
          exact nomatch full.symm.trans free
      | credit => exact .inr (silent ih rfl rfl)
      | retire => exact .inr (silent ih rfl rfl)
      | notify => exact .inr (silent ih rfl rfl)
      | return_ => exact .inr (silent ih rfl rfl)
      | _ => exact .inr ih
  | turn run turn ih =>
      rcases ih with lost | ih
      · refine .inl ?_
        cases turn <;> first | exact lost | rfl
      · cases turn with
        | escape => exact .inl rfl
        | lose => exact .inl rfl
        | _ => exact .inr ih

/-- In every run without an escaping exception admission keeps to its rules. -/
theorem well_admitted (reached : Reachable cfg NoEscape s) : WellAdmitted cfg s := by
  obtain ⟨checked, -, d, run, alive, settled, -⟩ := reached.settled
  have lives : ¬ d.escaped = true := by simp [alive]
  have seated := run.seated
  have family := (run.accounted checked).family
  have waiting := (run.waiting checked).resolve_left lives
  have reserved : ∀ channel w, (s.controllers channel).reservedSlots w = 0 := by
    intro channel w
    rw [show (s.controllers channel).reservedSlots w = d.slotCount channel w from
      seated.reserved channel w]
    unfold Debts.slotCount
    rw [settled.slots]
    rfl
  have waits : d.waits = fun p => decide (p.admittedBytes < p.transaction.sizeBytes) := by
    funext p
    simp [Debts.waits, settled.closing]
  have pending : s.pendingAdmissions = (s.parents.filter fun p =>
      p.admittedBytes < p.transaction.sizeBytes).map (·.transaction.id) := by
    rw [← waits]
    exact waiting.pending
  constructor
  case active => exact (run.roomy checked).fits
  case reads => exact fun channel bounded => seated.fits channel false bounded
  case writes => exact fun channel bounded => seated.fits channel true bounded
  case reserved => exact fun channel => ⟨reserved channel false, reserved channel true⟩
  case order => exact family.tickets
  case pending => exact pending
  case distinct =>
    rw [pending]
    exact (List.filter_sublist.map _).nodup family.ids
  case blocked =>
    intro p hp unfinished
    refine waiting.blocked p hp unfinished ?_
    rw [settled.loose]
    exact List.not_mem_nil
  case sorted =>
    exact fun channel => ⟨(run.ranked checked).sorted channel false,
      (run.ranked checked).sorted channel true⟩
  case fair => exact (run.fair checked).resolve_left lives

/-- Two reads wait for room in one channel. When a slot becomes free the older one is given
it, and the younger one waits on. -/
theorem well_admitted_waiting :
    (∃ s, WellAdmitted .twoChannels s ∧ s.pendingAdmissions = [2, 3] ∧
      (admittedAccesses s.trace 1).length = 2 ∧ (admittedAccesses s.trace 2).length = 1) ∧
    ∃ s, WellAdmitted .twoChannels s ∧ s.pendingAdmissions = [3] ∧
      (admittedAccesses s.trace 1).length = 3 ∧ (admittedAccesses s.trace 2).length = 1 := by
  have reach (count : Nat) (waiting : List Nat) (admitted : Nat)
      (run : (replay .twoChannels (rivals ++ dispatches count) (initial .twoChannels)).any
        (fun s => decide (s.pendingAdmissions = waiting ∧
          (admittedAccesses s.trace 1).length = admitted ∧
            (admittedAccesses s.trace 2).length = 1)) = true) :
      ∃ s, WellAdmitted .twoChannels s ∧ s.pendingAdmissions = waiting ∧
        (admittedAccesses s.trace 1).length = admitted ∧
          (admittedAccesses s.trace 2).length = 1 := by
    obtain ⟨s, reached, final⟩ := exists_reachable .twoChannels NoEscape
      (rivals ++ dispatches count) _ (by decide) (by decide) run
    exact ⟨s, well_admitted reached, of_decide_eq_true final⟩
  exact ⟨reach 4 [2, 3] 2 (by decide +kernel), reach 5 [3] 3 (by decide +kernel)⟩

end

end HbmSim
