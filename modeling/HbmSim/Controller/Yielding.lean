import HbmSim.Controller.Repetition

/-!
When a precharge gives way.

A ready precharge is exchanged for the data command that can go first into the row it would
close, of either queue and ready or not. So an FR-FCFS choice of a ready command ends in a
command that is not ready exactly if a precharge is chosen and no such data command is ready.
-/

namespace HbmSim

open HbmSim.Lib

/-- The least element is ready if any is. -/
theorem foldl_minElement_ready {α : Type} {less : α → α → Bool} (ready : α → Prop)
    (first : ∀ x y, ready x → ¬ ready y → less x y = true ∧ less y x = false)
    {rest : List α} {b : α} (some : ready b ∨ ∃ x ∈ rest, ready x) :
    ready (rest.foldl (fun best x => if less x best then x else best) b) := by
  induction rest generalizing b with
  | nil =>
      rcases some with hb | ⟨x, mem, -⟩
      · exact hb
      · cases mem
  | cons c rest ih =>
      rw [List.foldl_cons]
      apply ih
      by_cases hb : ready b
      · left
        split
        · rename_i less
          by_contra hc
          rw [(first b c hb hc).2] at less
          cases less
        · exact hb
      · rcases some with h | ⟨x, mem, hx⟩
        · exact absurd h hb
        · rcases List.mem_cons.mp mem with rfl | mem
          · left
            rw [(first x b hx hb).1]
            exact hx
          · exact .inr ⟨x, mem, hx⟩

/-- A choice that never prefers what is not ready to what is ready is ready if it can be. -/
theorem minElement_ready {α : Type} {less : α → α → Bool} (ready : α → Prop)
    (first : ∀ x y, ready x → ¬ ready y → less x y = true ∧ less y x = false)
    {xs : List α} {a x : α} (h : minElement less xs = some a) (mem : x ∈ xs) (hx : ready x) :
    ready a := by
  cases xs with
  | nil => cases mem
  | cons b rest =>
      obtain rfl := Option.some.inj h
      apply foldl_minElement_ready ready first
      rcases List.mem_cons.mp mem with rfl | mem
      · exact .inl hx
      · exact .inr ⟨x, mem, hx⟩

/-- A choice by the least measure has it. -/
theorem minElement_le {α : Type} (measure : α → Nat) {less : α → α → Bool}
    (compares : ∀ x y, less x y = decide (measure x < measure y)) {xs : List α} {a x : α}
    (h : minElement less xs = some a) (mem : x ∈ xs) : measure a ≤ measure x := by
  have least : ∀ (rest : List α) (b : α), ∀ y ∈ b :: rest,
      measure (rest.foldl (fun best x => if less x best then x else best) b) ≤ measure y := by
    intro rest
    induction rest with
    | nil =>
        intro b y mem
        rw [List.mem_singleton.mp mem]
        exact Nat.le_refl _
    | cons c rest ih =>
        intro b y mem
        rw [List.foldl_cons]
        have best := ih (if less c b then c else b) _ List.mem_cons_self
        have smaller : measure (if less c b then c else b) ≤ measure b ∧
            measure (if less c b then c else b) ≤ measure c := by
          rw [compares]
          split <;> rename_i order <;> simp only [decide_eq_true_eq] at order <;> omega
        rcases List.mem_cons.mp mem with rfl | mem
        · exact Nat.le_trans best smaller.1
        · rcases List.mem_cons.mp mem with rfl | mem
          · exact Nat.le_trans best smaller.2
          · exact ih _ y (List.mem_cons_of_mem _ mem)
  cases xs with
  | nil => cases mem
  | cons b rest =>
      obtain rfl := Option.some.inj h
      exact least rest b x mem

/-- Both FR-FCFS schedulers choose a ready candidate if there is one. -/
theorem SchedulerKind.choose_ready {kind : SchedulerKind} (fr : kind ≠ .fifo)
    {candidates : List SchedulerCandidate} {now : Nat} {selected c : SchedulerCandidate}
    (h : kind.choose candidates now = some selected) (mem : c ∈ candidates)
    (ready : c.readyAt ≤ now) : selected.readyAt ≤ now := by
  unfold SchedulerKind.choose at h
  refine minElement_ready (fun x => x.readyAt ≤ now) (fun x y hx hy => ?_) h mem ready
  cases kind with
  | frFcfs => simp [SchedulerKind.less, SchedulerKind.frFcfsLess, hx, hy]
  | frFcfsRowHit => simp [SchedulerKind.less, SchedulerKind.frFcfsRowHitLess, hx, hy]
  | fifo => exact absurd rfl fr

namespace HbmController

variable {config : HbmControllerConfig} {mapper : HbmAddressMapper} {c : HbmController}
  {now : Nat}

/-- The access is to the bank, and its data command is planned for the open row. -/
structure WaitsForRow (config : HbmControllerConfig) (c : HbmController) (bank : Nat)
    (b : HbmAccess) (k : HbmCommand) : Prop where
  bank : b.address.flatBank = bank
  planned : plannedCommand config c b = .ok k
  data : k.isData = true

/-- The earliest time of a data command of the accesses that wait for the open row of the
bank. -/
structure EarliestData (config : HbmControllerConfig) (mapper : HbmAddressMapper)
    (c : HbmController) (now bank : Nat) (accesses : List HbmAccess) (ready : Nat) : Prop where
  attained : ∃ b ∈ accesses, ∃ k, WaitsForRow config c bank b k ∧
    earliestCommand config mapper c k b.address now = .ok ready
  least : ∀ b ∈ accesses, ∀ k, WaitsForRow config c bank b k →
    ∃ time, earliestCommand config mapper c k b.address now = .ok time ∧ ready ≤ time

/-- The earliest data command has one time. -/
theorem EarliestData.unique {bank ready ready' : Nat} {accesses : List HbmAccess}
    (h : EarliestData config mapper c now bank accesses ready)
    (h' : EarliestData config mapper c now bank accesses ready') : ready = ready' := by
  have le : ∀ {r r' : Nat}, EarliestData config mapper c now bank accesses r →
      EarliestData config mapper c now bank accesses r' → r ≤ r' := by
    intro r r' h h'
    obtain ⟨b, mem, k, waits, run⟩ := h'.attained
    obtain ⟨time, run', le⟩ := h.least b mem k waits
    rw [run] at run'
    cases run'
    exact le
  exact Nat.le_antisymm (le h h') (le h' h)

/-- The data command that goes first among those of the accesses that wait for the open row of
the bank: the earliest, and the one of the oldest access if there are several. -/
structure FirstData (config : HbmControllerConfig) (mapper : HbmAddressMapper)
    (c : HbmController) (now bank : Nat) (accesses : List HbmAccess) (b : HbmAccess)
    (ready : Nat) : Prop where
  mem : b ∈ accesses
  attained : ∃ k, WaitsForRow config c bank b k ∧
    earliestCommand config mapper c k b.address now = .ok ready
  first : ∀ b' ∈ accesses, ∀ k, WaitsForRow config c bank b' k →
    ∃ time, earliestCommand config mapper c k b'.address now = .ok time ∧
      (ready < time ∨ ready = time ∧ b.sequence ≤ b'.sequence)

/-- The first of the earliest is an earliest. -/
theorem FirstData.earliest {bank ready : Nat} {accesses : List HbmAccess} {b : HbmAccess}
    (h : FirstData config mapper c now bank accesses b ready) :
    EarliestData config mapper c now bank accesses ready where
  attained := ⟨b, h.mem, h.attained⟩
  least b' mem k waits := by
    obtain ⟨time, run, order⟩ := h.first b' mem k waits
    exact ⟨time, run, by omega⟩

/-- What `find_waiting` has found among some accesses. -/
def Found (config : HbmControllerConfig) (mapper : HbmAddressMapper) (c : HbmController)
    (now bank : Nat) (accesses : List HbmAccess) : Option (Candidate × Nat) → Prop
  | none => ∀ b ∈ accesses, ∀ k, ¬ WaitsForRow config c bank b k
  | some best => ∃ b, FirstData config mapper c now bank accesses b best.1.readyAt ∧
      best.2 = b.sequence ∧ (c.queue best.1.isWrite)[best.1.index]? = some b

/-- An access that does not wait for the row is passed over. -/
theorem Found.skip {bank : Nat} {accesses : List HbmAccess} {waiting : Option (Candidate × Nat)}
    {b : HbmAccess} (found : Found config mapper c now bank accesses waiting)
    (other : ∀ k, ¬ WaitsForRow config c bank b k) :
    Found config mapper c now bank (accesses ++ [b]) waiting := by
  cases waiting with
  | none =>
      intro b' mem k
      rcases List.mem_append.mp mem with mem | mem
      · exact found b' mem k
      · rw [List.mem_singleton.mp mem]
        exact other k
  | some best =>
      obtain ⟨a, ⟨mem, attained, first⟩, place⟩ := found
      refine ⟨a, ⟨List.mem_append_left _ mem, attained, fun b' mem k waits => ?_⟩, place⟩
      rcases List.mem_append.mp mem with mem | mem
      · exact first b' mem k waits
      · rw [List.mem_singleton.mp mem] at waits
        exact absurd waits (other k)

/-- An access waits with one command. -/
theorem WaitsForRow.command_eq {bank : Nat} {b : HbmAccess} {k k' : HbmCommand}
    (h : WaitsForRow config c bank b k) (h' : WaitsForRow config c bank b k') : k = k' :=
  Except.ok.inj (h.planned.symm.trans h'.planned)

/-- The earlier of two data commands, or the one of the older access. -/
def earlierData (waiting : Option (Candidate × Nat)) (current : Candidate × Nat) :
    Candidate × Nat :=
  match waiting with
  | none => current
  | some best =>
      if current.1.readyAt < best.1.readyAt ∨
          (current.1.readyAt = best.1.readyAt ∧ current.2 < best.2) then current
      else best

/-- One more access waits, and the data command that goes first is kept. -/
theorem Found.take {bank : Nat} {accesses : List HbmAccess} {waiting : Option (Candidate × Nat)}
    {b : HbmAccess} {k : HbmCommand} {current : Candidate × Nat}
    (found : Found config mapper c now bank accesses waiting)
    (waits : WaitsForRow config c bank b k)
    (run : earliestCommand config mapper c k b.address now = .ok current.1.readyAt)
    (number : current.2 = b.sequence)
    (place : (c.queue current.1.isWrite)[current.1.index]? = some b) :
    Found config mapper c now bank (accesses ++ [b]) (some (earlierData waiting current)) := by
  have own : ∀ k', WaitsForRow config c bank b k' →
      earliestCommand config mapper c k' b.address now = .ok current.1.readyAt := by
    intro k' waits'
    rw [← waits.command_eq waits']
    exact run
  have last : b ∈ accesses ++ [b] := List.mem_append_right _ (List.mem_singleton_self b)
  have first : ∀ ready number, ready < current.1.readyAt ∨
        ready = current.1.readyAt ∧ number ≤ b.sequence →
      (∀ a ∈ accesses, ∀ k, WaitsForRow config c bank a k →
        ∃ time, earliestCommand config mapper c k a.address now = .ok time ∧
          (ready < time ∨ ready = time ∧ number ≤ a.sequence)) →
      ∀ a ∈ accesses ++ [b], ∀ k, WaitsForRow config c bank a k →
        ∃ time, earliestCommand config mapper c k a.address now = .ok time ∧
          (ready < time ∨ ready = time ∧ number ≤ a.sequence) := by
    intro ready number order before a mem k' waits'
    rcases List.mem_append.mp mem with mem | mem
    · exact before a mem k' waits'
    · rw [List.mem_singleton.mp mem] at waits' ⊢
      exact ⟨_, own k' waits', order⟩
  cases waiting with
  | none =>
      refine ⟨b, ⟨last, ⟨k, waits, run⟩, ?_⟩, number, place⟩
      refine first _ _ (.inr ⟨rfl, Nat.le_refl _⟩) fun a mem k waits => ?_
      exact absurd waits (found a mem k)
  | some best =>
      obtain ⟨a, ⟨mem, attained, before⟩, same, seat⟩ := found
      unfold earlierData
      dsimp only
      split
      · rename_i better
        refine ⟨b, ⟨last, ⟨k, waits, run⟩, ?_⟩, number, place⟩
        refine first _ _ (.inr ⟨rfl, Nat.le_refl _⟩) fun a mem k waits => ?_
        obtain ⟨time, at_, order⟩ := before a mem k waits
        exact ⟨time, at_, by omega⟩
      · rename_i worse
        refine ⟨a, ⟨List.mem_append_left _ mem, attained, ?_⟩, same, seat⟩
        exact first _ _ (by omega) before

/-- `find_waiting` finds the first data command, or throws at one whose time overflows. -/
theorem findWaiting_found {bank : Nat} {w : Bool} {q : List HbmAccess}
    (plans : ∀ b ∈ q, b.address.flatBank = bank → ∃ k, plannedCommand config c b = .ok k)
    (index : Nat) (part : ∀ i, q[i]? = (c.queue w)[index + i]?) {accesses : List HbmAccess}
    {waiting : Option (Candidate × Nat)}
    (found : Found config mapper c now bank accesses waiting) :
    match findWaiting config mapper c now bank w index q waiting with
    | .ok result => Found config mapper c now bank (accesses ++ q) result
    | .error e => ∃ b ∈ q, ∃ k, WaitsForRow config c bank b k ∧
        earliestCommand config mapper c k b.address now = .error e := by
  induction q generalizing index accesses waiting with
  | nil =>
      unfold findWaiting
      rw [List.append_nil]
      exact found
  | cons b rest ih =>
      have step : ∀ waiting, Found config mapper c now bank (accesses ++ [b]) waiting →
          match findWaiting config mapper c now bank w (index + 1) rest waiting with
          | .ok result => Found config mapper c now bank (accesses ++ b :: rest) result
          | .error e => ∃ b' ∈ b :: rest, ∃ k, WaitsForRow config c bank b' k ∧
              earliestCommand config mapper c k b'.address now = .error e := by
        intro waiting found
        have later := ih (fun b mem => plans b (List.mem_cons_of_mem _ mem)) (index + 1)
          (fun i => (part (i + 1)).trans (by rw [Nat.add_right_comm, Nat.add_assoc])) found
        rw [List.append_assoc, List.singleton_append] at later
        split at later
        · exact later
        · obtain ⟨b', mem, waits⟩ := later
          exact ⟨b', List.mem_cons_of_mem _ mem, waits⟩
      unfold findWaiting
      by_cases here : b.address.flatBank = bank
      · rw [if_neg (not_not_intro here)]
        obtain ⟨k, planned⟩ := plans b List.mem_cons_self here
        rw [planned]
        simp only [ok_bind]
        cases data : k.isData with
        | false =>
            simp only [Bool.not_false, if_true]
            refine step _ (found.skip fun k' waits => ?_)
            rw [Except.ok.inj (planned.symm.trans waits.planned), waits.data] at data
            cases data
        | true =>
            have waits : WaitsForRow config c bank b k := ⟨here, planned, data⟩
            simp only [Bool.not_true, Bool.false_eq_true, if_false]
            cases run : earliestCommand config mapper c k b.address now with
            | error e => exact ⟨b, List.mem_cons_self, k, waits, run⟩
            | ok ready =>
                simp only [ok_bind]
                exact step (some (earlierData waiting (⟨w, index, k, ready, 2⟩, b.sequence)))
                  (found.take waits run rfl (part 0).symm)
      · rw [if_pos here]
        exact step _ (found.skip fun k waits => here waits.bank)

/-- A precharge planned for the access is held back: data commands wait for the row it would
close, and the earliest of them cannot issue at `now`. -/
structure HeldBack (config : HbmControllerConfig) (mapper : HbmAddressMapper) (c : HbmController)
    (now : Nat) (a : HbmAccess) : Prop where
  precharge : plannedCommand config c a = .ok .preBank
  waits : ∃ b ∈ c.readQueue ++ c.writeQueue, ∃ k, WaitsForRow config c a.address.flatBank b k
  later : ∀ ready, EarliestData config mapper c now a.address.flatBank
    (c.readQueue ++ c.writeQueue) ready → now < ready

/-- Accesses to one bank are all planned or none is. -/
theorem plannedCommand_of_bank {a b : HbmAccess} {k : HbmCommand}
    (planned : plannedCommand config c a = .ok k) (same : b.address.flatBank = a.address.flatBank) :
    ∃ k, plannedCommand config c b = .ok k := by
  simp only [plannedCommand, bind_eq_ok] at planned ⊢
  obtain ⟨index, local_, bank, found, -⟩ := planned
  obtain ⟨k, next, -⟩ := HbmCommandPlanner.next_planned config.standard b.op b.address.row bank
    config.autoPrecharge
  exact ⟨k, index, same ▸ local_, bank, found, next⟩

/-- A time that overflows holds the precharge back for good. -/
theorem heldBack_of_error {a b : HbmAccess} {k : HbmCommand} {e : HbmError}
    (pre : plannedCommand config c a = .ok .preBank) (mem : b ∈ c.readQueue ++ c.writeQueue)
    (waits : WaitsForRow config c a.address.flatBank b k)
    (overflow : earliestCommand config mapper c k b.address now = .error e) :
    HeldBack config mapper c now a := by
  refine ⟨pre, ⟨b, mem, k, waits⟩, fun ready earliest => ?_⟩
  obtain ⟨time, run, -⟩ := earliest.least b mem k waits
  rw [overflow] at run
  cases run

/-- A ready precharge gives way to what `find_waiting` finds, or a time overflows. -/
theorem yieldPrecharge_found (mapper : HbmAddressMapper) {candidate : Candidate} {a : HbmAccess}
    (access : (c.queue candidate.isWrite)[candidate.index]? = some a)
    (planned : plannedCommand config c a = .ok .preBank) (pre : candidate.command = .preBank)
    (ready : candidate.readyAt ≤ now) :
    (∃ waiting, Found config mapper c now a.address.flatBank (c.readQueue ++ c.writeQueue) waiting ∧
      yieldPrecharge config mapper c now candidate = .ok (waiting.elim candidate (·.1))) ∨
    ∃ b ∈ c.readQueue ++ c.writeQueue, ∃ k e, WaitsForRow config c a.address.flatBank b k ∧
      earliestCommand config mapper c k b.address now = .error e ∧
      yieldPrecharge config mapper c now candidate = .error e := by
  unfold yieldPrecharge
  rw [if_neg (by simp [pre, ready]), access]
  dsimp only
  have plans : ∀ b ∈ c.readQueue ++ c.writeQueue, b.address.flatBank = a.address.flatBank →
      ∃ k, plannedCommand config c b = .ok k := fun b _ same => plannedCommand_of_bank planned same
  have none_yet : Found config mapper c now a.address.flatBank [] none :=
    fun b mem => absurd mem List.not_mem_nil
  have reads := findWaiting_found (w := false) (q := c.readQueue)
    (fun b mem => plans b (List.mem_append_left _ mem)) 0 (fun i => by rw [Nat.zero_add]; rfl)
    none_yet
  rw [List.nil_append] at reads
  split at reads
  · rename_i waiting run
    have writes := findWaiting_found (w := true) (q := c.writeQueue)
      (fun b mem => plans b (List.mem_append_right _ mem)) 0 (fun i => by rw [Nat.zero_add]; rfl)
      reads
    rw [run, ok_bind]
    split at writes
    · rename_i result run
      left
      refine ⟨result, writes, ?_⟩
      rw [run, ok_bind]
      cases result <;> rfl
    · rename_i e run
      right
      obtain ⟨b, mem, k, waits, overflow⟩ := writes
      refine ⟨b, List.mem_append_right _ mem, k, e, waits, overflow, ?_⟩
      rw [run]
      rfl
  · rename_i e run
    right
    obtain ⟨b, mem, k, waits, overflow⟩ := reads
    refine ⟨b, List.mem_append_left _ mem, k, e, waits, overflow, ?_⟩
    rw [run]
    rfl

/-- A ready candidate ends in a ready one unless it is a precharge that is held back. -/
theorem yieldPrecharge_ready {candidate : Candidate} {a : HbmAccess}
    (access : (c.queue candidate.isWrite)[candidate.index]? = some a)
    (planned : plannedCommand config c a = .ok candidate.command)
    (ready : candidate.readyAt ≤ now) :
    (∃ result, yieldPrecharge config mapper c now candidate = .ok result ∧
        result.readyAt ≤ now) ↔ ¬ HeldBack config mapper c now a := by
  by_cases pre : candidate.command = .preBank
  · rw [pre] at planned
    rcases yieldPrecharge_found mapper access planned pre ready with
      ⟨waiting, found, run⟩ | ⟨b, mem, k, e, waits, overflow, run⟩
    · rw [run]
      cases waiting with
      | none =>
          refine iff_of_true ⟨candidate, rfl, ready⟩ fun held => ?_
          obtain ⟨b, mem, k, waits⟩ := held.waits
          exact found b mem k waits
      | some best =>
          obtain ⟨d, first, -⟩ := found
          constructor
          · rintro ⟨result, run, due⟩ held
            cases run
            exact absurd due (Nat.not_le.mpr (held.later _ first.earliest))
          · intro free
            refine ⟨best.1, rfl, Nat.not_lt.mp fun later => free ⟨planned, ?_, ?_⟩⟩
            · obtain ⟨k, waits, -⟩ := first.attained
              exact ⟨d, first.mem, k, waits⟩
            · intro ready earliest
              rw [earliest.unique first.earliest]
              exact later
    · rw [run]
      refine iff_of_false ?_ (not_not_intro (heldBack_of_error planned mem waits overflow))
      rintro ⟨result, run, -⟩
      cases run
  · unfold yieldPrecharge
    rw [if_pos (.inr pre)]
    refine iff_of_true ⟨candidate, rfl, ready⟩ fun held => pre ?_
    exact Except.ok.inj (planned.symm.trans held.precharge)

/-! ### Work conservation -/

variable {s : ControllerState}

/-- Every access of the queue has its candidate. -/
theorem scanQueue_mem {w : Bool} {index : Nat} {q : List HbmAccess}
    {candidates : List SchedulerCandidate} {a : HbmAccess}
    (run : (scanQueue config mapper c w now index q).2 = .ok candidates) (mem : a ∈ q) :
    ∃ candidate ∈ candidates, ∃ index, CandidateOf config mapper c w now a index candidate := by
  induction q generalizing index candidates with
  | nil => cases mem
  | cons b rest ih =>
      unfold scanQueue at run
      cases first : candidateFor config mapper c w now index b with
      | error e =>
          rw [first] at run
          cases run
      | ok marked =>
          obtain ⟨b', candidate⟩ := marked
          rw [first] at run
          dsimp only at run
          cases later : (scanQueue config mapper c w now (index + 1) rest).2 with
          | error e =>
              rw [later] at run
              cases run
          | ok others =>
              rw [later] at run
              obtain rfl := Except.ok.inj run
              rcases List.mem_cons.mp mem with rfl | mem
              · exact ⟨candidate, List.mem_cons_self, index, (candidateFor_ok first).2⟩
              · obtain ⟨other, found, of⟩ := ih later mem
                exact ⟨other, List.mem_cons_of_mem _ found, of⟩

variable (config mapper) in
/-- The state in which `drive` at `now` asks the scheduler. -/
def considered (now : Nat) (s : ControllerState) : ControllerState :=
  scanned config mapper now (drained config (updateStarvation config s now))

variable (config mapper) in
/-- The candidates the scheduler is asked to choose from. -/
def offered (now : Nat) (s : ControllerState) : Except HbmError (List SchedulerCandidate) :=
  (scanActive config mapper (drained config (updateStarvation config s now)).ctl now).2

/-- Every candidate offered to the scheduler is one of an access of the active queue. -/
theorem offered_of {candidates : List SchedulerCandidate} {candidate : SchedulerCandidate}
    (offer : offered config mapper now s = .ok candidates) (mem : candidate ∈ candidates) :
    let u := (drained config (updateStarvation config s now)).ctl
    ∃ j a, (u.queue u.activeSide)[j]? = some a ∧
      CandidateOf config mapper u u.activeSide now a j candidate := by
  intro u
  have spec := (scanQueue_spec config mapper u u.activeSide now 0 (u.queue u.activeSide)).2
  unfold offered scanActive at offer
  rw [offer] at spec
  obtain ⟨j, a, access, of⟩ := spec.2 candidate mem
  rw [Nat.zero_add] at of
  exact ⟨j, a, access, of⟩

variable (config mapper) in
/-- The scheduler picks the access. -/
def Picks (now : Nat) (s : ControllerState) (a : HbmAccess) : Prop :=
  ∃ candidates selected, offered config mapper now s = .ok candidates ∧
    config.scheduler.choose candidates now = some selected ∧
      ((considered config mapper now s).ctl.queue selected.isWrite)[selected.queueIndex]? = some a

variable (config mapper) in
/-- The access can have a command other than a precharge at `now`. -/
def Ready (now : Nat) (c : HbmController) (a : HbmAccess) : Prop :=
  ∃ k time, plannedCommand config c a = .ok k ∧ k ≠ .preBank ∧
    earliestCommand config mapper c k a.address now = .ok time ∧ time ≤ now

/-- A selection is the choice among the offers. -/
theorem select_eq : select config mapper now s =
    (ofExcept (choice config mapper (considered config mapper now s).ctl now
      (offered config mapper now s)) : ControllerM (Option Candidate))
        (considered config mapper now s) :=
  chooseNext_eq

theorem considered_retouched (s : ControllerState) (now : Nat) :
    Retouched config s (considered config mapper now s) :=
  ((updateStarvation_retouched s now).trans (updateWriteDrain_retouched _)).trans
    (scanned_retouched _ now)

variable (config mapper) in
/-- The queue the scheduler chooses from. -/
def activeQueue (now : Nat) (s : ControllerState) : List HbmAccess :=
  (considered config mapper now s).ctl.queue
    (drained config (updateStarvation config s now)).ctl.activeSide

section

variable {candidates : List SchedulerCandidate} {selected : SchedulerCandidate}
  (offer : offered config mapper now s = .ok candidates)
  (picked : config.scheduler.choose candidates now = some selected)

include offer picked

/-- The scheduler's choice is the planned command of an access, at its earliest time. -/
theorem chosen_of_picked :
    Chosen config mapper (considered config mapper now s).ctl now (ofScheduler selected) := by
  obtain ⟨j, a, access, of⟩ := offered_of offer (choose_mem picked)
  exact chosen_of_candidateOf (scanned_retouched _ now) _ access of

/-- A ready access lets no waiting one be picked. -/
theorem picked_ready (fr : config.scheduler ≠ .fifo) {b : HbmAccess}
    (mem : b ∈ activeQueue config mapper now s)
    (ready : Ready config mapper now (considered config mapper now s).ctl b) :
    selected.readyAt ≤ now := by
  have touched : Retouched config (drained config (updateStarvation config s now))
      (considered config mapper now s) := scanned_retouched _ now
  obtain ⟨b', mem', core⟩ := touched.mem mem
  have logical := HbmAccess.logical_of_core core
  obtain ⟨candidate, found, index, of⟩ := scanQueue_mem offer mem'
  refine config.scheduler.choose_ready fr picked found ?_
  obtain ⟨k, time, planned, -, run, due⟩ := ready
  have planned' := of.planned
  have ready' := of.ready
  rw [← plannedCommand_congr touched.banks logical.symm, planned] at planned'
  rw [← Except.ok.inj planned', logical, ← earliestCommand_retouched touched, run] at ready'
  rw [← Except.ok.inj ready']
  exact due

end

/-- There is a choice among candidates. -/
theorem choose_isSome (kind : SchedulerKind) (now : Nat) {candidates : List SchedulerCandidate}
    (some : candidates ≠ []) : ∃ selected, kind.choose candidates now = Option.some selected := by
  cases picked : kind.choose candidates now with
  | none => exact absurd (minElement_eq_none.mp picked) some
  | some selected => exact ⟨selected, rfl⟩

/-- The pick is selected, if it is no precharge that yields. -/
theorem select_of_offer {candidates : List SchedulerCandidate} {selected : SchedulerCandidate}
    (offer : offered config mapper now s = .ok candidates)
    (picked : config.scheduler.choose candidates now = some selected) :
    select config mapper now s = (ofExcept (some <$> yieldPrecharge config mapper
      (considered config mapper now s).ctl now (ofScheduler selected)) :
        ControllerM (Option Candidate)) (considered config mapper now s) := by
  rw [select_eq, offer]
  unfold choice
  simp only [ok_bind, picked]
  cases yieldPrecharge config mapper (considered config mapper now s).ctl now
    (ofScheduler selected) <;> rfl

variable (config mapper) in
/-- `drive` at `now` issues some command. -/
def IssuesAny (now : Nat) (s : ControllerState) : Prop :=
  ∃ r, r.issuedAt = now ∧ Appends r s (exitState (drive config mapper now s))

/-- With a command ready in the active queue an FR-FCFS controller issues a command, unless
the access the scheduler picks has a precharge planned that is held back. -/
theorem issues_iff_not_heldBack (fr : config.scheduler ≠ .fifo)
    (idle : s.ctl.refreshBusyUntil ≤ now) (quiet : s.ctl.Quiet)
    (work : ∃ b ∈ activeQueue config mapper now s,
      Ready config mapper now (considered config mapper now s).ctl b) :
    IssuesAny config mapper now s ↔
      ∃ a, Picks config mapper now s a ∧
        ¬ HeldBack config mapper (considered config mapper now s).ctl now a := by
  have touched : Retouched config s (considered config mapper now s) := considered_retouched s now
  obtain ⟨b, mem, ready⟩ := work
  constructor
  · rintro ⟨r, -, issued⟩
    have silent : exitState (drive config mapper now s) ≠ considered config mapper now s := by
      intro same
      rw [same] at issued
      exact issued.not_silent touched.recorded
    cases offer : offered config mapper now s with
    | error e =>
        have fails : select config mapper now s = .error e (considered config mapper now s) := by
          rw [select_eq, offer]
          rfl
        exact absurd (congrArg exitState (drive_of_error idle quiet fails)) silent
    | ok candidates =>
        obtain ⟨b', mem', -⟩ := (scanned_retouched _ now).mem mem
        obtain ⟨candidate, found, -⟩ := scanQueue_mem offer mem'
        obtain ⟨selected, picked⟩ :=
          choose_isSome config.scheduler now (List.ne_nil_of_mem found)
        obtain ⟨a, access, planned, -⟩ := chosen_of_picked offer picked
        have due := picked_ready offer picked fr mem ready
        refine ⟨a, ⟨candidates, selected, offer, picked, access⟩, ?_⟩
        rw [← yieldPrecharge_ready access planned due]
        have selection := select_of_offer offer picked
        cases yields : yieldPrecharge config mapper (considered config mapper now s).ctl now
            (ofScheduler selected) with
        | error e =>
            rw [yields] at selection
            exact absurd (congrArg exitState (drive_of_error idle quiet selection)) silent
        | ok result =>
            rw [yields] at selection
            refine ⟨result, rfl, Nat.not_lt.mp fun later => silent ?_⟩
            exact congrArg exitState (drive_of_later idle quiet selection later)
  · rintro ⟨a, ⟨candidates, selected, offer, picked, access⟩, free⟩
    have chosen := chosen_of_picked offer picked
    have ⟨a', access', planned, _⟩ := chosen
    obtain rfl : a = a' := Option.some.inj (access.symm.trans access')
    have due := picked_ready offer picked fr mem ready
    obtain ⟨result, yields, prompt⟩ := (yieldPrecharge_ready access' planned due).mpr free
    have selection := select_of_offer offer picked
    rw [yields] at selection
    obtain ⟨d, queued, plannedResult, -⟩ := (yieldPrecharge_ok chosen yields).1
    obtain ⟨bank, issued⟩ :=
      issues_of_selected touched idle quiet selection queued plannedResult prompt
    exact ⟨_, rfl, issued⟩

end HbmController

end HbmSim
