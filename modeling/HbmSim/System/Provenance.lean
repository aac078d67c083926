import HbmSim.System.Numbers

/-!
Where a completion comes from.

A completion event carries a transfer that was issued, so every access that finishes is one
that an issued transfer serves, at the end of the transfer. A parent reports the class and
the stages of an access of its own that finished when the parent completed.
-/

namespace HbmSim

open HbmSim.Lib HbmSystem

/-- A transfer of the trace serves the access and ends at the time. -/
def Delivered (trace : List Observation) (channel time : Nat) (access : LogicalCompletion) : Prop :=
  ∃ physical at_, .issued channel physical at_ ∈ trace ∧ access ∈ physical.completions ∧
    physical.completionTime = time

/-- What finishes, or is about to, has been issued. -/
structure Sourced (s : HbmSystem) (d : Debts) : Prop where
  issued : ∀ x ∈ d.issued, ∃ at_, .issued x.1 x.2 at_ ∈ s.trace
  flying : ∀ e ∈ s.scheduler.events, ∀ channel physical, e.callback = .accessDone channel physical →
    ∃ at_, .issued channel physical at_ ∈ s.trace
  finishing : ∀ x ∈ d.finishing, Delivered s.trace x.1 x.2.1 x.2.2
  finished : ∀ ticket channel access time, .finished ticket channel access time ∈ s.trace →
    Delivered s.trace channel time access

/-- The class, the stages and the times a parent or its completion reports are those of an
access. -/
structure Reports (trace : List Observation) (ticket channel time arrivalTime : Nat)
    (accessClass : HbmAccessClass) (stages : HbmLatencyBreakdown) : Prop where
  access : ∃ access, .finished ticket channel access time ∈ trace ∧
    access.accessClass = accessClass ∧ access.latencyBreakdown = stages ∧
    access.arrivalTime = arrivalTime

/-- The parent reports an access of its own, once one has finished. -/
def ParentRequest.Reports (p : ParentRequest) (trace : List Observation) : Prop :=
  finishedAccesses trace p.ticket = [] ∨
    HbmSim.Reports trace p.ticket p.completionChannel p.completionTime p.transaction.arrivalTime
      p.lastAccessClass p.lastLatencyBreakdown

/-- Parents and completions report finished accesses. -/
structure Reported (s : HbmSystem) : Prop where
  sized : ∀ p ∈ s.parents, p.transaction.sizeBytes ≠ 0
  parents : ∀ p ∈ s.parents, p.Reports s.trace
  completed : ∀ ticket completion at_, .completed ticket completion at_ ∈ s.trace →
    completion.latency = SimTime.sub completion.completionTime completion.arrivalTime ∧
      Reports s.trace ticket completion.channel completion.completionTime completion.arrivalTime
        completion.accessClass completion.latencyBreakdown

section

variable {cfg : HbmConfig} {s t : HbmSystem} {d d' : Debts}

/-! ### Transfers -/

/-- What was delivered stays delivered. -/
theorem Delivered.cons {trace : List Observation} {channel time : Nat} {access : LogicalCompletion}
    (h : Delivered trace channel time access) (o : Observation) :
    Delivered (o :: trace) channel time access := by
  obtain ⟨physical, at_, mem, rest⟩ := h
  exact ⟨physical, at_, List.mem_cons_of_mem o mem, rest⟩

/-- A change that schedules and observes nothing new about accesses. -/
theorem Sourced.keep (h : Sourced s d) (trace : t.trace = s.trace)
    (events : ∀ e ∈ t.scheduler.events, e ∈ s.scheduler.events ∨
      ∀ channel physical, e.callback ≠ .accessDone channel physical)
    (issued : d'.issued = d.issued) (finishing : d'.finishing = d.finishing) : Sourced t d' where
  issued := by
    rw [issued, trace]
    exact h.issued
  flying e he channel physical callback := by
    rw [trace]
    rcases events e he with mem | other
    · exact h.flying e mem channel physical callback
    · exact absurd callback (other channel physical)
  finishing := by
    rw [finishing, trace]
    exact h.finishing
  finished := by
    rw [trace]
    exact h.finished

/-- An observation that finishes nothing. -/
theorem Sourced.observe (h : Sourced s d) {o : Observation}
    (nothing : ∀ ticket channel access time, o ≠ .finished ticket channel access time) :
    Sourced (s.observe o) d where
  issued x hx := (h.issued x hx).imp fun _ => List.mem_cons_of_mem o
  flying e he channel physical callback :=
    (h.flying e he channel physical callback).imp fun _ => List.mem_cons_of_mem o
  finishing x hx := (h.finishing x hx).cons o
  finished ticket channel access time mem := by
    rcases List.mem_cons.mp mem with same | mem
    · exact absurd same.symm (nothing ticket channel access time)
    · exact (h.finished ticket channel access time mem).cons o

/-- An event that finishes nothing is scheduled. -/
theorem mem_schedule {at_ : Nat} {callback : EventCallback} {e : Event EventCallback}
    (other : ∀ channel physical, callback ≠ .accessDone channel physical)
    (he : e ∈ (s.schedule at_ callback).scheduler.events) : e ∈ s.scheduler.events ∨
      ∀ channel physical, e.callback ≠ .accessDone channel physical := by
  have emplaced := (emplaceEvent_perm _ s.scheduler.events).mem_iff.mp he
  rcases List.mem_cons.mp emplaced with rfl | mem
  · exact .inr other
  · exact .inl mem

/-- Every move keeps the sources. -/
theorem Sourced.move {p q : HbmSystem × Debts} (move : Move cfg p q) (h : Sourced p.1 p.2) :
    Sourced q.1 q.2 := by
  cases move with
  | @transfer s d channel physical t =>
      have observed : Sourced ((s.update channel t).observe (.issued channel physical s.now)) d :=
        (h.keep rfl (fun _ => .inl) rfl rfl : Sourced (s.update channel t) d).observe
          fun _ _ _ _ same => by cases same
      refine ⟨fun x hx => ?_, observed.flying, observed.finishing, observed.finished⟩
      rcases List.mem_cons.mp hx with rfl | hx
      · exact ⟨s.now, List.mem_cons_self⟩
      · exact observed.issued x hx
  | wake => exact h.keep rfl (fun _ => mem_schedule fun _ _ same => by cases same) rfl rfl
  | arm => exact h.keep rfl (fun _ => mem_schedule fun _ _ same => by cases same) rfl rfl
  | @accept s d tx =>
      exact (h.observe (o := .accepted s.nextTicket tx s.now) fun _ _ _ _ same => by cases same).keep
        rfl (fun _ => .inl) rfl rfl
  | @charge s d parent access =>
      exact (h.observe (o := .admitted parent.ticket access.address.flatChannel (s.numbered access)
        s.now) fun _ _ _ _ same => by cases same).keep rfl (fun _ => .inl) rfl rfl
  | @credit s d channel access parent rest _ popped =>
      have mine : Delivered s.trace channel s.now access := by
        have head := h.finishing (channel, s.now, access)
        rw [popped] at head
        exact head List.mem_cons_self
      refine ⟨fun x hx => (h.issued x hx).imp fun _ => List.mem_cons_of_mem _,
        fun e he c physical callback =>
          (h.flying e he c physical callback).imp fun _ => List.mem_cons_of_mem _,
        fun x hx => (h.finishing x (popped ▸ List.mem_cons_of_mem _ hx)).cons _,
        fun ticket c a time mem => ?_⟩
      rcases List.mem_cons.mp mem with same | mem
      · cases same
        exact mine.cons _
      · exact (h.finished ticket c a time mem).cons _
  | @retire s d parent =>
      exact (h.observe (o := .completed parent.ticket (completionOf parent) s.now)
        fun _ _ _ _ same => by cases same).keep rfl (fun _ => .inl) rfl rfl
  | @complete s d channel physical rest _ issued =>
      have mine := h.issued (channel, physical) (issued ▸ List.mem_cons_self)
      refine ⟨fun x hx => h.issued x (issued ▸ List.mem_cons_of_mem _ hx),
        fun e he c physical' callback => ?_, h.finishing, h.finished⟩
      have emplaced := (emplaceEvent_perm _ s.scheduler.events).mem_iff.mp he
      rcases List.mem_cons.mp emplaced with rfl | mem
      · cases callback
        exact mine
      · exact h.flying e mem c physical' callback
  | announce => exact h.keep rfl (fun _ => mem_schedule fun _ _ same => by cases same) rfl rfl
  | @client s d at_ tag =>
      refine h.keep rfl (fun e he => ?_) rfl rfl
      exact @mem_schedule s at_ (.client tag) e (fun _ _ same => by cases same) he
  | notify => exact h.observe fun _ _ _ _ same => by cases same
  | return_ => exact h.observe fun _ _ _ _ same => by cases same
  | _ => exact h.keep rfl (fun _ => .inl) rfl rfl

/-- Every turn keeps the sources. -/
theorem Sourced.turn {p q : HbmSystem × Debts} (turn : Turn cfg p q) (h : Sourced p.1 p.2) :
    Sourced q.1 q.2 := by
  cases turn with
  | wake next =>
      exact h.keep rfl (fun e he => .inl (next ▸ List.mem_cons_of_mem _ he)) rfl rfl
  | refreshDue next =>
      exact h.keep rfl (fun e he => .inl (next ▸ List.mem_cons_of_mem _ he)) rfl rfl
  | @accessDone s d event rest channel issued next callback time =>
      obtain ⟨at_, mine⟩ := h.flying event (next ▸ List.mem_cons_self) channel issued callback
      refine ⟨h.issued, fun e he => h.flying e (next ▸ List.mem_cons_of_mem _ he), fun x hx => ?_,
        h.finished⟩
      rcases List.mem_append.mp hx with now | later
      · obtain ⟨l, hl, rfl⟩ := List.mem_map.mp now
        exact ⟨issued, at_, mine, hl, time⟩
      · exact h.finishing x later
  | other next =>
      exact h.keep rfl (fun e he => .inl (next ▸ List.mem_cons_of_mem _ he)) rfl rfl
  | _ => exact h.keep rfl (fun _ => .inl) rfl rfl

/-- In every run what finishes was issued. -/
theorem HbmSystem.Run.sourced {p : HbmSystem × Debts} (run : Run cfg p) : Sourced p.1 p.2 := by
  induction run with
  | create =>
      constructor
      all_goals simp [initial]
  | move _ move ih => exact ih.move move
  | turn _ turn ih => exact ih.turn turn

/-- A data command of a run issued the transfer, no later than a time had left 64 bits. -/
def Issuing (cfg : HbmConfig) (u : HbmSystem) (channel : Nat) (physical : PhysicalAccess) : Prop :=
  ∃ s d t, Run cfg (s, d) ∧ channel < cfg.channelCount ∧
    HbmController.DataStep (cfg.channelConfig channel) cfg.mapper s.now (s.side channel) physical t ∧
    (Overflowed cfg (s.update channel t) → Overflowed cfg u)

/-- What was issued stays issued. -/
theorem Issuing.later {u v : HbmSystem} {channel : Nat} {physical : PhysicalAccess}
    (h : Issuing cfg u channel physical) (passed : Overflowed cfg u → Overflowed cfg v) :
    Issuing cfg v channel physical := by
  obtain ⟨s, d, t, run, hchannel, step, wraps⟩ := h
  exact ⟨s, d, t, run, hchannel, step, passed ∘ wraps⟩

/-- A transfer of the trace was issued by a data command of a run. -/
theorem HbmSystem.Run.issuing {p : HbmSystem × Debts} (run : Run cfg p) :
    ∀ channel physical at_, .issued channel physical at_ ∈ p.1.trace →
      Issuing cfg p.1 channel physical := by
  induction run with
  | create => simp [initial]
  | @move p q run move ih =>
      intro channel physical at_ mem
      have older := fun mem => (ih channel physical at_ mem).later fun passed => passed.move move
      cases move with
      | transfer hchannel step =>
          rcases List.mem_cons.mp mem with same | mem
          · cases same
            exact ⟨_, _, _, run, hchannel, step, id⟩
          · exact older mem
      | accept | charge | credit | retire | notify | return_ =>
          rcases List.mem_cons.mp mem with same | mem
          · cases same
          · exact older mem
      | _ => exact older mem
  | @turn p q run turn ih =>
      intro channel physical at_ mem
      have older := fun mem =>
        (ih channel physical at_ mem).later fun passed => passed.turn turn run.scheduled
      cases turn with
      | _ => exact older mem

/-- What a data command makes true of its transfer is true of every transfer issued, as long as
no time has left 64 bits. -/
theorem HbmSystem.Run.transfers {P : Nat → PhysicalAccess → Prop}
    (issue : ∀ {s d channel physical t}, Run cfg (s, d) → channel < cfg.channelCount →
      HbmController.DataStep (cfg.channelConfig channel) cfg.mapper s.now (s.side channel)
        physical t → ¬ Overflowed cfg (s.update channel t) → P channel physical)
    {p : HbmSystem × Debts} (run : Run cfg p) (fits : ¬ Overflowed cfg p.1) :
    ∀ channel physical at_, .issued channel physical at_ ∈ p.1.trace → P channel physical := by
  intro channel physical at_ mem
  obtain ⟨s, d, t, run, hchannel, step, passed⟩ := run.issuing channel physical at_ mem
  exact issue run hchannel step (mt passed fits)

/-! ### Parents -/

/-- What was reported stays reported. -/
theorem Reports.cons {trace : List Observation} {ticket channel time arrivalTime : Nat}
    {accessClass : HbmAccessClass} {stages : HbmLatencyBreakdown}
    (h : Reports trace ticket channel time arrivalTime accessClass stages) (o : Observation) :
    Reports (o :: trace) ticket channel time arrivalTime accessClass stages := by
  obtain ⟨access, mem, rest⟩ := h.access
  exact ⟨access, List.mem_cons_of_mem o mem, rest⟩

/-- A parent of another ticket reports what it did. -/
theorem ParentRequest.Reports.cons {p : ParentRequest} {trace : List Observation}
    (h : p.Reports trace) {o : Observation} (other : o.finishes p.ticket = none) :
    p.Reports (o :: trace) := by
  rcases h with none | reports
  · refine .inl ?_
    unfold finishedAccesses at none ⊢
    rw [List.filterMap_cons, other]
    exact none
  · exact .inr (reports.cons o)

/-- A change of the parents that keeps what they report, and an observation about nothing they
report. -/
theorem Reported.keep (h : Reported s)
    (parents : ∀ p ∈ t.parents, ∃ q ∈ s.parents,
      p.transaction = q.transaction ∧ (p.Reports s.trace ↔ q.Reports s.trace))
    (trace : t.trace = s.trace) : Reported t where
  sized p hp := by
    obtain ⟨q, hq, same, -⟩ := parents p hp
    rw [same]
    exact h.sized q hq
  parents p hp := by
    rw [trace]
    obtain ⟨q, hq, -, same⟩ := parents p hp
    exact same.mpr (h.parents q hq)
  completed := by
    rw [trace]
    exact h.completed

/-- An observation that finishes and completes nothing. -/
theorem Reported.observe (h : Reported s) {o : Observation}
    (nothing : ∀ ticket, o.finishes ticket = none)
    (incomplete : ∀ ticket completion at_, o ≠ .completed ticket completion at_) :
    Reported (s.observe o) where
  sized := h.sized
  parents p hp := (h.parents p hp).cons (nothing p.ticket)
  completed ticket completion at_ mem := by
    rcases List.mem_cons.mp mem with same | mem
    · exact absurd same.symm (incomplete ticket completion at_)
    · exact (h.completed ticket completion at_ mem).imp_right (·.cons o)

/-- Nothing has finished for the next ticket. -/
theorem finishedAccesses_fresh {parents : List ParentRequest} {trace : List Observation}
    {nextTicket now : Nat} {ripe : Option Nat} (family : Family parents trace nextTicket now ripe) :
    finishedAccesses trace nextTicket = [] := by
  refine List.filterMap_eq_nil_iff.mpr fun o ho => ?_
  have below := family.numbered o ho
  cases o with
  | finished ticket channel access at_ =>
      have lt := below ticket rfl
      exact if_neg (Nat.ne_of_lt lt)
  | _ => rfl

/-- Something has finished for a parent that is done. -/
theorem finishedAccesses_done {parents : List ParentRequest} {trace : List Observation}
    {nextTicket now : Nat} {ripe : Option Nat} (family : Family parents trace nextTicket now ripe)
    {p : ParentRequest} (hp : p ∈ parents) (sized : p.transaction.sizeBytes ≠ 0)
    (remaining : p.remainingAccesses = 0)
    (admitted : p.admittedBytes = p.transaction.sizeBytes) :
    finishedAccesses trace p.ticket ≠ [] := by
  intro none
  have opened : (openAccesses trace).filter (·.ticket == p.ticket) = [] := by
    have count := family.remaining p hp
    rw [remaining, List.countP_eq_length_filter] at count
    exact List.eq_nil_of_length_eq_zero count.symm
  have perm := finished_append_open_perm (finishesOpen_of_legit family.legit) p.ticket
  rw [none, opened] at perm
  have nothing : admittedAccesses trace p.ticket = [] := List.nil_perm.mp perm
  have bytes := family.admitted p hp
  unfold admittedBytes at bytes
  rw [nothing, admitted] at bytes
  exact sized bytes

/-- Every move keeps the reports. -/
theorem Reported.move (checked : cfg.Checked) {p q : HbmSystem × Debts} (run : Run cfg p)
    (move : Move cfg p q) (h : Reported p.1) : Reported q.1 := by
  have family := (run.accounted checked).family
  have same : ∀ p' ∈ p.1.parents, ∃ q ∈ p.1.parents, p'.transaction = q.transaction ∧
      (p'.Reports p.1.trace ↔ q.Reports p.1.trace) :=
    fun p' hp => ⟨p', hp, rfl, Iff.rfl⟩
  -- only an access that finishes changes what a parent reports, and it is the latest so far
  cases move with
  | @transfer s d channel physical t =>
      exact (h.keep same rfl : Reported (s.update channel t)).observe (fun _ => rfl)
        fun _ _ _ same => by cases same
  | @accept s d tx sized =>
      have fresh : ParentRequest.Reports
          { transaction := tx, ticket := s.nextTicket } s.trace :=
        .inl (finishedAccesses_fresh family)
      refine ⟨fun p' hp => ?_, fun p' hp => ?_,
        (h.observe (o := .accepted s.nextTicket tx s.now) (fun _ => rfl)
          fun _ _ _ same => by cases same).completed⟩
      · rcases List.mem_append.mp hp with old | new
        · exact h.sized p' old
        · obtain rfl := List.mem_singleton.mp new
          exact sized
      · rcases List.mem_append.mp hp with old | new
        · exact (h.parents p' old).cons rfl
        · obtain rfl := List.mem_singleton.mp new
          exact fresh.cons rfl
  | @charge s d parent access =>
      have charged : Reported (s.observe (.admitted parent.ticket access.address.flatChannel
          (s.numbered access) s.now)) :=
        h.observe (fun _ => rfl) fun _ _ _ same => by cases same
      refine charged.keep (fun p' mem => ?_) rfl
      obtain ⟨p, hp, rfl⟩ := List.mem_map.mp mem
      refine ⟨p, hp, ?_⟩
      split <;> exact ⟨rfl, Iff.rfl⟩
  | @credit s d channel access parent rest _ popped found =>
      obtain ⟨mem, id⟩ := findParent_some found
      obtain ⟨p, hp, ticket, of⟩ := family.owner _ ((run.accounted checked).opened popped found)
      obtain rfl := family.eq_of_ticket hp mem ticket
      have credited : Reports (.finished p.ticket channel access s.now :: s.trace) p.ticket channel
          s.now p.transaction.arrivalTime access.accessClass access.latencyBreakdown :=
        ⟨access, List.mem_cons_self, rfl, rfl, of.arrivalTime⟩
      have past : p.completionTime ≤ s.now := family.past p mem
      refine ⟨fun p' hp' => ?_, fun p' hp' => ?_, fun ticket completion at_ done => ?_⟩
      · obtain ⟨q, hq, rfl⟩ := List.mem_map.mp hp'
        split
        · rw [Family.creditAccess_eq past]
          exact h.sized p mem
        · exact h.sized q hq
      · obtain ⟨q, hq, rfl⟩ := List.mem_map.mp hp'
        have hq : q ∈ s.parents := hq
        split
        · rw [Family.creditAccess_eq past]
          exact .inr credited
        · rename_i other
          refine (h.parents q hq).cons (if_neg fun same => other ?_)
          rw [← family.eq_of_ticket mem hq same]
          exact id
      · rcases List.mem_cons.mp done with same | done
        · cases same
        · exact (h.completed ticket completion at_ done).imp_right (·.cons _)
  | @retire s d parent found ripe finished admitted =>
      obtain ⟨mem, -⟩ := findParent_some found
      have reports : parent.Reports s.trace := h.parents parent mem
      have mine := reports.resolve_left
        (finishedAccesses_done family mem (h.sized parent mem) finished admitted)
      refine ⟨fun p' hp => h.sized p' (List.mem_of_mem_filter hp), fun p' hp => ?_,
        fun ticket completion at_ done => ?_⟩
      · exact (h.parents p' (List.mem_of_mem_filter hp)).cons rfl
      · rcases List.mem_cons.mp done with same | done
        · cases same
          exact ⟨rfl, mine.cons _⟩
        · exact (h.completed ticket completion at_ done).imp_right (·.cons _)
  | notify => exact h.observe (fun _ => rfl) fun _ _ _ same => by cases same
  | return_ => exact h.observe (fun _ => rfl) fun _ _ _ same => by cases same
  | _ => exact h.keep same rfl

/-- Every turn keeps the reports. -/
theorem Reported.turn {p q : HbmSystem × Debts} (turn : Turn cfg p q) (h : Reported p.1) :
    Reported q.1 := by
  have same : ∀ p' ∈ p.1.parents, ∃ q ∈ p.1.parents, p'.transaction = q.transaction ∧
      (p'.Reports p.1.trace ↔ q.Reports p.1.trace) :=
    fun p' hp => ⟨p', hp, rfl, Iff.rfl⟩
  cases turn with
  | _ => exact h.keep same rfl

/-- In every run the completions report what finished. -/
theorem HbmSystem.Run.reported (checked : cfg.Checked) {p : HbmSystem × Debts} (run : Run cfg p) :
    Reported p.1 := by
  induction run with
  | create =>
      constructor
      all_goals simp [initial]
  | move run move ih => exact ih.move checked run move
  | turn _ turn ih => exact ih.turn turn

end

end HbmSim
