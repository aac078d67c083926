import Mathlib.Data.List.Count
import Mathlib.Data.List.Nodup
import HbmSim.System.Checked
import HbmSim.System.Moves
import HbmSim.System.Trace

/-!
The active parents and the trace.

The parents are the accepted transactions that are not completed, in acceptance
order. What each of them counts (bytes admitted, accesses outstanding, latest
completion) is what the trace says about its ticket, and every observation of the
trace was legitimate when it was made.
-/

namespace HbmSim

open HbmSim.Lib HbmSystem

/-- The completion of a transaction reports what was submitted. -/
structure HbmCompletion.Of (c : HbmCompletion) (tx : HbmTransaction) : Prop where
  id : c.id = tx.id
  op : c.op = tx.op
  address : c.address = tx.address
  sizeBytes : c.sizeBytes = tx.sizeBytes
  client : c.client = tx.client
  arrivalTime : c.arrivalTime = tx.arrivalTime
  metadata : c.metadata = tx.metadata

/-- The latest of some times. -/
def latest (times : List Nat) : Nat := times.foldr max 0

/-- An observation is legitimate after the earlier ones: tickets are fresh,
accesses belong to an accepted transaction that is not completed, only open
accesses finish, and a transaction is completed once, when all its bytes are
admitted and all its accesses have finished, at the latest of their times. -/
def Legit : Observation → List Observation → Prop
  | .accepted ticket _ _, earlier =>
      ∀ o ∈ earlier, ∀ t, o.ticket? = some t → t < ticket
  | .admitted ticket _ access _, earlier =>
      (∃ tx at_, .accepted ticket tx at_ ∈ earlier ∧ access.toLogicalAccess.Of tx) ∧
        ¬ Completed earlier ticket
  | .finished ticket channel access _, earlier =>
      ⟨ticket, channel, access.toLogicalAccess⟩ ∈ openAccesses earlier ∧
        ¬ Completed earlier ticket
  | .completed ticket completion at_, earlier =>
      (∃ tx at', .accepted ticket tx at' ∈ earlier ∧ completion.Of tx ∧
          admittedBytes earlier ticket = tx.sizeBytes) ∧
        ¬ Completed earlier ticket ∧ (∀ o ∈ openAccesses earlier, o.ticket ≠ ticket) ∧
          completion.completionTime = at_ ∧ at_ = latest (finishTimes earlier ticket)
  | .issued .., _ => True
  | .notified _, _ => True
  | .returned .., _ => True

/-- In a legitimate trace only open accesses finish. -/
theorem finishesOpen_of_legit {trace : List Observation} (legit : Chronicle Legit trace) :
    Chronicle FinishesOpen trace := by
  refine legit.mono fun o earlier h => ?_
  cases o with
  | finished t channel access at_ =>
      intro ticket open_ finishes
      simp only [Observation.finishes] at finishes
      split at finishes
      · rename_i same
        obtain rfl := Option.some.inj finishes
        exact h.1
      · cases finishes
  | _ =>
      intro ticket open_ finishes
      cases finishes

/-- The parents of a system agree with its trace. -/
structure Family (parents : List ParentRequest) (trace : List Observation)
    (nextTicket now : Nat) (ripe : Option Nat) : Prop where
  tickets : (parents.map (·.ticket)).Pairwise (· < ·)
  ids : (parents.map (·.transaction.id)).Nodup
  numbered : ∀ o ∈ trace, ∀ t, o.ticket? = some t → t < nextTicket
  accepted : ∀ p ∈ parents, ∃ at_, .accepted p.ticket p.transaction at_ ∈ trace
  active : ∀ p ∈ parents, ¬ Completed trace p.ticket
  admitted : ∀ p ∈ parents, p.admittedBytes = admittedBytes trace p.ticket
  fits : ∀ p ∈ parents, p.admittedBytes ≤ p.transaction.sizeBytes
  remaining : ∀ p ∈ parents,
    p.remainingAccesses = (openAccesses trace).countP (·.ticket == p.ticket)
  completionTime : ∀ p ∈ parents, p.completionTime = latest (finishTimes trace p.ticket)
  past : ∀ p ∈ parents, p.completionTime ≤ now
  unripe : ∀ p ∈ parents, ripe ≠ some p.transaction.id →
    p.remainingAccesses ≠ 0 ∨ p.admittedBytes < p.transaction.sizeBytes
  owner : ∀ o ∈ openAccesses trace, ∃ p ∈ parents, p.ticket = o.ticket ∧
    o.access.Of p.transaction
  settled : ∀ t tx at_, .accepted t tx at_ ∈ trace →
    (∃ p ∈ parents, p.ticket = t) ∨ Completed trace t
  range : ∀ p ∈ parents,
    p.transaction.sizeBytes - 1 ≤ maxSimTime - p.transaction.address
  arrived : ∀ p ∈ parents, p.transaction.arrivalTime ≤ now
  legit : Chronicle Legit trace

namespace Family

variable {cfg : HbmConfig} {parents : List ParentRequest} {trace : List Observation}
  {nextTicket now : Nat} {ripe : Option Nat}

theorem below (h : Family parents trace nextTicket now ripe) {p : ParentRequest}
    (hp : p ∈ parents) : p.ticket < nextTicket := by
  obtain ⟨at_, hat⟩ := h.accepted p hp
  exact h.numbered _ hat _ rfl

/-- An id names one active parent. -/
theorem eq_of_id (h : Family parents trace nextTicket now ripe) {p q : ParentRequest}
    (hp : p ∈ parents) (hq : q ∈ parents) (same : p.transaction.id = q.transaction.id) : p = q :=
  List.inj_on_of_nodup_map h.ids hp hq same

/-- So does a ticket. -/
theorem eq_of_ticket (h : Family parents trace nextTicket now ripe) {p q : ParentRequest}
    (hp : p ∈ parents) (hq : q ∈ parents) (same : p.ticket = q.ticket) : p = q :=
  List.inj_on_of_nodup_map (h.tickets.imp Nat.ne_of_lt) hp hq same

/-- Time passing changes nothing. -/
theorem later (h : Family parents trace nextTicket now ripe) {now' : Nat} (le : now ≤ now') :
    Family parents trace nextTicket now' ripe :=
  { h with
    past := fun p hp => Nat.le_trans (h.past p hp) le
    arrived := fun p hp => Nat.le_trans (h.arrived p hp) le }

/-- Nothing has been observed about the next ticket. -/
theorem fresh (h : Family parents trace nextTicket now ripe) :
    admittedBytes trace nextTicket = 0 ∧ finishTimes trace nextTicket = [] ∧
      (openAccesses trace).countP (·.ticket == nextTicket) = 0 ∧ ¬ Completed trace nextTicket := by
  have unseen : ∀ o ∈ trace, o.ticket? ≠ some nextTicket := fun o ho same =>
    Nat.lt_irrefl _ (h.numbered o ho _ same)
  refine ⟨?_, ?_, ?_, ?_⟩
  · have none : admittedAccesses trace nextTicket = [] := by
      refine List.filterMap_eq_nil_iff.mpr fun o ho => ?_
      have := unseen o ho
      cases o <;> simp_all [Observation.admits, Observation.ticket?]
    simp [admittedBytes, none]
  · refine List.filterMap_eq_nil_iff.mpr fun o ho => ?_
    have := unseen o ho
    cases o <;> simp_all [Observation.finishTime, Observation.ticket?]
  · refine List.countP_eq_zero.mpr fun o ho same => ?_
    obtain ⟨p, hp, hticket, -⟩ := h.owner o ho
    have := h.below hp
    simp only [beq_iff_eq] at same
    omega
  · rintro ⟨c, at_, hc⟩
    exact unseen _ hc rfl

/-- An observation that is about no ticket changes nothing. -/
theorem observe (h : Family parents trace nextTicket now ripe) {o : Observation}
    (neutral : o.ticket? = none) : Family parents (o :: trace) nextTicket now ripe := by
  have legit : Legit o trace := by cases o <;> trivial
  have completed : ∀ t, Completed (o :: trace) t ↔ Completed trace t := by
    intro t
    unfold Completed
    simp only [List.mem_cons]
    refine exists_congr fun c => exists_congr fun at_ => ⟨fun h => ?_, .inr⟩
    rcases h with rfl | h
    · cases neutral
    · exact h
  have accepted : ∀ t tx at_, .accepted t tx at_ ∈ o :: trace ↔ .accepted t tx at_ ∈ trace := by
    intro t tx at_
    refine List.mem_cons.trans ⟨fun h => ?_, .inr⟩
    rcases h with rfl | h
    · cases neutral
    · exact h
  exact { h with
    numbered := fun o' ho t ht => by
      rcases List.mem_cons.mp ho with rfl | ho
      · rw [neutral] at ht
        cases ht
      · exact h.numbered o' ho t ht
    accepted := fun p hp => by simpa only [accepted] using h.accepted p hp
    active := fun p hp => by simpa only [completed] using h.active p hp
    admitted := fun p hp => by simpa only [admittedBytes_neutral neutral] using h.admitted p hp
    remaining := fun p hp => by simpa only [openAccesses_neutral neutral] using h.remaining p hp
    completionTime := fun p hp => by
      simpa only [finishTimes_neutral neutral] using h.completionTime p hp
    owner := fun a ha => h.owner a (openAccesses_neutral neutral ▸ ha)
    settled := fun t tx at_ ht => by
      simpa only [completed] using h.settled t tx at_ ((accepted t tx at_).mp ht)
    legit := chronicle_cons.mpr ⟨legit, h.legit⟩ }

/-! ### Acceptance -/

/-- An accepted transaction is a new parent. -/
theorem accept (h : Family parents trace nextTicket now ripe) {tx : HbmTransaction}
    (sized : tx.sizeBytes ≠ 0) (fresh_id : ∀ p ∈ parents, p.transaction.id ≠ tx.id)
    (range : tx.sizeBytes - 1 ≤ maxSimTime - tx.address) (arrived : tx.arrivalTime ≤ now) :
    Family (parents ++ [{ transaction := tx, ticket := nextTicket }])
      (.accepted nextTicket tx now :: trace) (nextTicket + 1) now ripe := by
  obtain ⟨noBytes, noTimes, noOpen, notCompleted⟩ := h.fresh
  have completed : ∀ t, Completed (.accepted nextTicket tx now :: trace) t ↔
      Completed trace t := by simp [Completed]
  have split : ∀ {P : ParentRequest → Prop}, (∀ p ∈ parents, P p) →
      P { transaction := tx, ticket := nextTicket } →
      ∀ p ∈ parents ++ [{ transaction := tx, ticket := nextTicket }], P p := by
    intro P old new p hp
    rcases List.mem_append.mp hp with hp | hp
    · exact old p hp
    · obtain rfl := List.mem_singleton.mp hp
      exact new
  constructor
  case tickets =>
    rw [List.map_append, List.pairwise_append]
    refine ⟨h.tickets, by simp, fun t ht t' ht' => ?_⟩
    obtain ⟨p, hp, rfl⟩ := List.mem_map.mp ht
    obtain rfl : t' = nextTicket := by simpa using ht'
    exact h.below hp
  case ids =>
    rw [List.map_append, List.nodup_append]
    refine ⟨h.ids, by simp, fun i hi j hj => ?_⟩
    obtain ⟨p, hp, rfl⟩ := List.mem_map.mp hi
    obtain rfl : j = tx.id := by simpa using hj
    exact fresh_id p hp
  case numbered =>
    intro o ho t ht
    rcases List.mem_cons.mp ho with rfl | ho
    · obtain rfl := Option.some.inj ht
      exact Nat.lt_succ_self _
    · exact Nat.lt_succ_of_lt (h.numbered o ho t ht)
  case accepted =>
    refine split (fun p hp => ?_) ⟨now, List.mem_cons_self⟩
    obtain ⟨at_, hat⟩ := h.accepted p hp
    exact ⟨at_, List.mem_cons_of_mem _ hat⟩
  case active =>
    exact split (fun p hp => by rw [completed]; exact h.active p hp) (by rwa [completed])
  case admitted => exact split h.admitted noBytes.symm
  case fits => exact split h.fits (Nat.zero_le _)
  case remaining => exact split h.remaining noOpen.symm
  case completionTime =>
    refine split h.completionTime ?_
    show 0 = latest (finishTimes trace nextTicket)
    rw [noTimes]
    rfl
  case past => exact split h.past (Nat.zero_le _)
  case unripe => exact split h.unripe fun _ => .inr (Nat.pos_of_ne_zero sized)
  case owner =>
    intro o ho
    obtain ⟨p, hp, owns⟩ := h.owner o ho
    exact ⟨p, List.mem_append_left _ hp, owns⟩
  case settled =>
    intro t tx' at_ ht
    rw [completed]
    rcases List.mem_cons.mp ht with same | ht
    · cases same
      exact .inl ⟨_, List.mem_append_right _ (List.mem_singleton_self _), rfl⟩
    · rcases h.settled t tx' at_ ht with ⟨p, hp, hticket⟩ | done
      · exact .inl ⟨p, List.mem_append_left _ hp, hticket⟩
      · exact .inr done
  case range => exact split h.range range
  case arrived => exact split h.arrived arrived
  case legit => exact chronicle_cons.mpr ⟨h.numbered, h.legit⟩

/-! ### Changing one parent -/

/-- The parents after `p` becomes `p'`. -/
def change (parents : List ParentRequest) (p p' : ParentRequest) : List ParentRequest :=
  parents.map fun q => if q.transaction.id = p.transaction.id then p' else q

/-- What all parents have, the changed one included. -/
theorem forall_change (h : Family parents trace nextTicket now ripe) {p p' : ParentRequest}
    (hp : p ∈ parents) {P : ParentRequest → Prop} (self : P p')
    (other : ∀ q ∈ parents, q.transaction.id ≠ p.transaction.id → q.ticket ≠ p.ticket → P q) :
    ∀ q ∈ change parents p p', P q := by
  intro q' hq'
  obtain ⟨q, hq, rfl⟩ := List.mem_map.mp hq'
  split
  · exact self
  · rename_i hid
    exact other q hq hid fun same => hid (by rw [h.eq_of_ticket hq hp same])

/-- A change keeps the parent's keys where they are. -/
theorem map_change (h : Family parents trace nextTicket now ripe) {p p' : ParentRequest}
    (hp : p ∈ parents) {κ : Type} {key : ParentRequest → κ} (same : key p' = key p) :
    (change parents p p').map key = parents.map key := by
  unfold change
  rw [List.map_map]
  refine List.map_congr_left fun q hq => ?_
  by_cases hid : q.transaction.id = p.transaction.id
  · obtain rfl := h.eq_of_id hq hp hid
    simpa using same
  · simp [hid]

/-- What some parent has, the changed one included. -/
theorem exists_change (h : Family parents trace nextTicket now ripe) {p p' : ParentRequest}
    (hp : p ∈ parents) {P : ParentRequest → Prop} (self : P p → P p')
    (some : ∃ q ∈ parents, P q) : ∃ q ∈ change parents p p', P q := by
  obtain ⟨q, hq, hP⟩ := some
  by_cases hid : q.transaction.id = p.transaction.id
  · obtain rfl := h.eq_of_id hq hp hid
    exact ⟨p', List.mem_map.mpr ⟨q, hq, if_pos rfl⟩, self hP⟩
  · exact ⟨q, List.mem_map.mpr ⟨q, hq, if_neg hid⟩, hP⟩

/-- `modify_parent` changes the one parent of that id. -/
theorem map_eq_change (h : Family parents trace nextTicket now ripe) {p : ParentRequest}
    (hp : p ∈ parents) {id : Nat} (hid : p.transaction.id = id)
    (f : ParentRequest → ParentRequest) :
    (parents.map fun q => if q.transaction.id = id then f q else q) = change parents p (f p) := by
  unfold change
  refine List.map_congr_left fun q hq => ?_
  rw [← hid]
  split
  · rename_i same
    rw [h.eq_of_id hq hp same]
  · rfl

/-- The observation admits or finishes an access of the ticket. -/
inductive Serves (ticket : Nat) : Observation → Prop
  | admitted (channel : Nat) (access : HbmAccess) (at_ : Nat) :
      Serves ticket (.admitted ticket channel access at_)
  | finished (channel : Nat) (access : LogicalCompletion) (at_ : Nat) :
      Serves ticket (.finished ticket channel access at_)

namespace Serves

variable {o : Observation} {ticket t : Nat}

theorem about (serves : Serves ticket o) : o.ticket? = some ticket := by
  cases serves <;> rfl

theorem completed (serves : Serves ticket o) : Completed (o :: trace) t ↔ Completed trace t := by
  cases serves <;> simp [Completed]

theorem accepted (serves : Serves ticket o) {tx : HbmTransaction} {at_ : Nat}
    (mem : .accepted t tx at_ ∈ o :: trace) : .accepted t tx at_ ∈ trace := by
  rcases List.mem_cons.mp mem with rfl | mem
  · cases serves
  · exact mem

/-- The accesses of the other tickets stay as they are. -/
theorem others (serves : Serves ticket o) (ne : t ≠ ticket) :
    admittedBytes (o :: trace) t = admittedBytes trace t ∧
      (openAccesses (o :: trace)).countP (·.ticket == t) =
        (openAccesses trace).countP (·.ticket == t) ∧
      finishTimes (o :: trace) t = finishTimes trace t := by
  cases serves with
  | admitted channel access at_ =>
      refine ⟨?_, ?_, rfl⟩
      · simp [admittedBytes, admittedAccesses, Observation.admits, ne.symm]
      · simp [openAccesses, ne.symm]
  | finished channel access at_ =>
      refine ⟨rfl, ?_, ?_⟩
      · simp [openAccesses, List.countP_erase, ne.symm]
      · simp [finishTimes, Observation.finishTime, ne.symm]

end Serves

/-- One parent is served: what is known of the others stays. -/
theorem serve (h : Family parents trace nextTicket now ripe) {p p' : ParentRequest}
    (hp : p ∈ parents) {o : Observation} {ripe' : Option Nat} (serves : Serves p.ticket o)
    (ticket : p'.ticket = p.ticket) (transaction : p'.transaction = p.transaction)
    (admitted : p'.admittedBytes = admittedBytes (o :: trace) p.ticket)
    (fits : p'.admittedBytes ≤ p.transaction.sizeBytes)
    (remaining : p'.remainingAccesses =
      (openAccesses (o :: trace)).countP (·.ticket == p.ticket))
    (completionTime : p'.completionTime = latest (finishTimes (o :: trace) p.ticket))
    (past : p'.completionTime ≤ now)
    (unripe : ripe' ≠ some p.transaction.id →
      p'.remainingAccesses ≠ 0 ∨ p'.admittedBytes < p.transaction.sizeBytes)
    (others : ∀ id, id ≠ p.transaction.id → ripe' ≠ some id → ripe ≠ some id)
    (owner : ∀ a ∈ openAccesses (o :: trace),
      a ∈ openAccesses trace ∨ p.ticket = a.ticket ∧ a.access.Of p.transaction)
    (legit : Legit o trace) : Family (change parents p p') (o :: trace) nextTicket now ripe' := by
  have tickets : (change parents p p').map (·.ticket) = parents.map (·.ticket) :=
    h.map_change hp ticket
  have ids : (change parents p p').map (·.transaction.id) = parents.map (·.transaction.id) :=
    h.map_change hp (congrArg HbmTransaction.id transaction)
  have kept : ∀ q ∈ parents, ∃ at_, .accepted q.ticket q.transaction at_ ∈ o :: trace := by
    intro q hq
    obtain ⟨at_, hat⟩ := h.accepted q hq
    exact ⟨at_, List.mem_cons_of_mem _ hat⟩
  -- each field for the parent that is served, and for the others, whose tickets differ
  constructor
  case tickets =>
    rw [tickets]
    exact h.tickets
  case ids =>
    rw [ids]
    exact h.ids
  case numbered =>
    intro o' ho t ht
    rcases List.mem_cons.mp ho with rfl | ho
    · obtain rfl := Option.some.inj (serves.about.symm.trans ht)
      exact h.below hp
    · exact h.numbered o' ho t ht
  case accepted =>
    refine h.forall_change hp ?_ fun q hq _ _ => kept q hq
    rw [ticket, transaction]
    exact kept p hp
  case active =>
    simp only [serves.completed]
    exact h.forall_change hp (ticket ▸ h.active p hp) fun q hq _ _ => h.active q hq
  case admitted =>
    exact h.forall_change hp (ticket ▸ admitted) fun q hq _ ne =>
      (h.admitted q hq).trans (serves.others ne).1.symm
  case fits => exact h.forall_change hp (transaction ▸ fits) fun q hq _ _ => h.fits q hq
  case remaining =>
    exact h.forall_change hp (ticket ▸ remaining) fun q hq _ ne =>
      (h.remaining q hq).trans (serves.others ne).2.1.symm
  case completionTime =>
    refine h.forall_change hp (ticket ▸ completionTime) fun q hq _ ne => ?_
    rw [(serves.others ne).2.2]
    exact h.completionTime q hq
  case past => exact h.forall_change hp past fun q hq _ _ => h.past q hq
  case unripe =>
    exact h.forall_change hp (transaction ▸ unripe) fun q hq ne _ other =>
      h.unripe q hq (others _ ne other)
  case owner =>
    intro a ha
    rcases owner a ha with old | ⟨own, of⟩
    · refine h.exists_change hp (fun owns => ?_) (h.owner a old)
      rwa [ticket, transaction]
    · exact h.exists_change hp (fun _ => ⟨ticket.trans own, transaction ▸ of⟩) ⟨p, hp, own, of⟩
  case settled =>
    intro t tx at_ mem
    rw [serves.completed]
    exact (h.settled t tx at_ (serves.accepted mem)).imp (h.exists_change hp ticket.trans) id
  case range => exact h.forall_change hp (transaction ▸ h.range p hp) fun q hq _ _ => h.range q hq
  case arrived =>
    exact h.forall_change hp (transaction ▸ h.arrived p hp) fun q hq _ _ => h.arrived q hq
  case legit => exact chronicle_cons.mpr ⟨legit, h.legit⟩

/-- A parent is charged with its next access. -/
theorem charge (h : Family parents trace nextTicket now ripe) {p p' : ParentRequest}
    (hp : p ∈ parents) {access : HbmAccess} (of : access.toLogicalAccess.Of p.transaction)
    (fits : p.admittedBytes + access.sizeBytes ≤ p.transaction.sizeBytes) (channel : Nat)
    (hp' : p' = { p with
      admittedBytes := p.admittedBytes + access.sizeBytes
      remainingAccesses := p.remainingAccesses + 1 }) :
    Family (change parents p p') (.admitted p.ticket channel access now :: trace) nextTicket now
      ripe := by
  subst hp'
  obtain ⟨at_, hat⟩ := h.accepted p hp
  refine h.serve hp (.admitted channel access now) rfl rfl ?admitted fits ?remaining
    (h.completionTime p hp) (h.past p hp) (fun _ => .inl (Nat.succ_ne_zero _)) (fun _ _ => id)
    ?owner ⟨⟨p.transaction, at_, hat, of⟩, h.active p hp⟩
  case admitted =>
    simp only [admittedBytes, admittedAccesses, Observation.admits, List.filterMap_cons, if_true,
      List.map_cons, List.sum_cons, h.admitted p hp]
    exact Nat.add_comm _ _
  case remaining =>
    simp [openAccesses, h.remaining p hp]
  case owner =>
    intro a ha
    rcases List.mem_cons.mp ha with rfl | old
    · exact .inr ⟨rfl, of⟩
    · exact .inl old

/-- A credited access is the parent's latest: nothing finishes after now. -/
theorem creditAccess_eq {p : ParentRequest} (past : p.completionTime ≤ now)
    (access : LogicalCompletion) (channel : Nat) :
    creditAccess p access channel now = { p with
      remainingAccesses := p.remainingAccesses - 1
      completionTime := now
      completionChannel := channel
      lastAccessClass := access.accessClass
      lastLatencyBreakdown := access.latencyBreakdown } :=
  if_pos past

/-- A finished access is credited to its parent. -/
theorem credit (h : Family parents trace nextTicket now none) {p p' : ParentRequest}
    (hp : p ∈ parents) {channel : Nat} {access : LogicalCompletion}
    (opened : ⟨p.ticket, channel, access.toLogicalAccess⟩ ∈ openAccesses trace)
    (hp' : p' = creditAccess p access channel now) :
    Family (change parents p p') (.finished p.ticket channel access now :: trace) nextTicket now
      (if p.remainingAccesses = 1 ∧ p.admittedBytes = p.transaction.sizeBytes then
        some p.transaction.id else none) := by
  rw [creditAccess_eq (h.past p hp)] at hp'
  subst hp'
  have last : (openAccesses (.finished p.ticket channel access now :: trace)).countP
      (·.ticket == p.ticket) = p.remainingAccesses - 1 := by
    simp [openAccesses, List.countP_erase, opened, h.remaining p hp]
  refine h.serve hp (.finished channel access now) rfl rfl (h.admitted p hp) (h.fits p hp)
    last.symm ?completionTime (Nat.le_refl _) ?unripe (fun id _ _ => (Option.some_ne_none id).symm)
    (fun a ha => .inl (List.mem_of_mem_erase ha)) ⟨opened, h.active p hp⟩
  case completionTime =>
    simp only [finishTimes, Observation.finishTime, List.filterMap_cons, if_true]
    show now = max now (latest (finishTimes trace p.ticket))
    rw [← h.completionTime p hp, Nat.max_eq_left (h.past p hp)]
  case unripe =>
    intro unripe
    show p.remainingAccesses - 1 ≠ 0 ∨ p.admittedBytes < p.transaction.sizeBytes
    have fits := h.fits p hp
    have some_open : p.remainingAccesses ≠ 0 := by
      rw [h.remaining p hp]
      exact Nat.ne_of_gt (List.countP_pos_iff.mpr ⟨_, opened, by simp⟩)
    by_cases ripe : p.remainingAccesses = 1 ∧ p.admittedBytes = p.transaction.sizeBytes
    -- the last access of a parent admitted in full makes it ripe, and it is excepted
    · exact absurd (if_pos ripe) unripe
    · omega

/-- A parent whose accesses have all finished is completed. -/
theorem retire (h : Family parents trace nextTicket now ripe) {p : ParentRequest}
    (hp : p ∈ parents) (ripe' : ripe = some p.transaction.id) (remaining : p.remainingAccesses = 0)
    (admitted : p.admittedBytes = p.transaction.sizeBytes) (time : p.completionTime = now) :
    Family (parents.filter fun q => q.transaction.id != p.transaction.id)
      (.completed p.ticket (completionOf p) now :: trace) nextTicket now none := by
  have completed : ∀ t, Completed (.completed p.ticket (completionOf p) now :: trace) t ↔
      t = p.ticket ∨ Completed trace t := by
    intro t
    constructor
    · rintro ⟨c, at_, hc⟩
      rcases List.mem_cons.mp hc with same | hc
      · cases same
        exact .inl rfl
      · exact .inr ⟨c, at_, hc⟩
    · rintro (rfl | ⟨c, at_, hc⟩)
      · exact ⟨_, _, List.mem_cons_self⟩
      · exact ⟨c, at_, List.mem_cons_of_mem _ hc⟩
  have kept : ∀ {q}, q ∈ parents.filter (fun q => q.transaction.id != p.transaction.id) →
      q ∈ parents ∧ q.transaction.id ≠ p.transaction.id := by
    intro q hq
    obtain ⟨hq, hne⟩ := List.mem_filter.mp hq
    exact ⟨hq, by simpa using hne⟩
  have other : ∀ q ∈ parents, q.ticket ≠ p.ticket →
      q ∈ parents.filter fun q => q.transaction.id != p.transaction.id := by
    intro q hq hne
    refine List.mem_filter.mpr ⟨hq, ?_⟩
    simp only [bne_iff_ne, ne_eq]
    exact fun same => hne (by rw [h.eq_of_id hq hp same])
  -- its remaining accesses are the open ones of its ticket: there are none
  have none_open : ∀ o ∈ openAccesses trace, o.ticket ≠ p.ticket := by
    intro o ho same
    have count := h.remaining p hp
    rw [remaining] at count
    exact List.countP_eq_zero.mp count.symm o ho (by simpa using same)
  constructor
  case tickets => exact h.tickets.sublist (List.filter_sublist.map _)
  case ids => exact h.ids.sublist (List.filter_sublist.map _)
  case numbered =>
    intro o ho t ht
    rcases List.mem_cons.mp ho with rfl | ho
    · obtain rfl := Option.some.inj ht
      exact h.below hp
    · exact h.numbered o ho t ht
  case accepted =>
    intro q hq
    obtain ⟨at_, hat⟩ := h.accepted q (kept hq).1
    exact ⟨at_, List.mem_cons_of_mem _ hat⟩
  case active =>
    intro q hq
    obtain ⟨hq, hne⟩ := kept hq
    rw [completed]
    rintro (same | done)
    · exact hne (by rw [h.eq_of_ticket hq hp same])
    · exact h.active q hq done
  case admitted => exact fun q hq => h.admitted q (kept hq).1
  case fits => exact fun q hq => h.fits q (kept hq).1
  case remaining => exact fun q hq => h.remaining q (kept hq).1
  case completionTime => exact fun q hq => h.completionTime q (kept hq).1
  case past => exact fun q hq => h.past q (kept hq).1
  case unripe =>
    intro q hq _
    obtain ⟨hq, hne⟩ := kept hq
    refine h.unripe q hq fun same => hne ?_
    rw [ripe'] at same
    exact (Option.some.inj same).symm
  case owner =>
    intro o ho
    obtain ⟨q, hq, hticket, of⟩ := h.owner o ho
    exact ⟨q, other q hq (hticket ▸ none_open o ho), hticket, of⟩
  case settled =>
    intro t tx at_ ht
    rw [completed]
    rcases List.mem_cons.mp ht with same | ht
    · cases same
    · rcases h.settled t tx at_ ht with ⟨q, hq, rfl⟩ | done
      · by_cases same : q.ticket = p.ticket
        · exact .inr (.inl same)
        · exact .inl ⟨q, other q hq same, rfl⟩
      · exact .inr (.inr done)
  case range => exact fun q hq => h.range q (kept hq).1
  case arrived => exact fun q hq => h.arrived q (kept hq).1
  case legit =>
    obtain ⟨at_, hat⟩ := h.accepted p hp
    refine chronicle_cons.mpr ⟨⟨⟨p.transaction, at_, hat, ⟨rfl, rfl, rfl, rfl, rfl, rfl, rfl⟩, ?_⟩,
      h.active p hp, none_open, time, ?_⟩, h.legit⟩
    · rw [← h.admitted p hp, admitted]
    · rw [← h.completionTime p hp, time]

end Family

end HbmSim
