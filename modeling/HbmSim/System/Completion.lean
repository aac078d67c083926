import HbmSim.System.Submission

/-!
Completion as moves.

A completion event credits the accesses of its transfer one by one. The access that
was the last of its parent completes the parent, and the callbacks then made may
submit again before the next access is credited.
-/

namespace HbmSim

open HbmSim.Lib HbmSystem Relation

section

variable {cfg : HbmConfig} {p q : HbmSystem × Debts} {s t : HbmSystem} {d : Debts}

/-- What a call that finishes accesses has left: the accesses still to be credited,
and nothing else that was not owed before. -/
structure Finished (rest : List (Nat × Nat × LogicalCompletion)) (p q : HbmSystem × Debts) :
    Prop where
  escaped : q.2.escaped = p.2.escaped
  finishing : q.2.finishing = rest
  ripe : q.2.ripe = none
  settled : p.2.escaped = true ∨ q.2.Settled

/-! ### Completing a parent -/

/-- The parent is gone and the client may have made calls. -/
theorem completeParent_obeys (checked : cfg.Checked) (count : cfg.channelCount ≠ 0)
    {parent : ParentRequest} (run : Run cfg (s, d))
    (found : s.findParent parent.transaction.id = some parent)
    (ripe : d.ripe = some parent.transaction.id) (finished : parent.remainingAccesses = 0)
    (admitted : parent.admittedBytes = parent.transaction.sizeBytes)
    (time : parent.completionTime = s.now)
    (settled : d.escaped = true ∨ ({ d with ripe := none } : Debts).Settled) :
    Obeys cfg (completeParent cfg parent.transaction.id) (fun _ q => Finished d.finishing (s, d) q)
      (s, d) := by
  have retire : Move cfg (s, d) (s.retireParent cfg parent,
      { d with ripe := none, retired := d.retired + 1 }) :=
    .retire found ripe finished admitted time (settled.imp_right (·.closing))
  have retired := run.move retire
  have ready : ({ d with ripe := none, retired := d.retired + 1 } : Debts).Ready := by
    rcases settled with lost | settled
    · exact .inl lost
    · exact .inr ⟨⟨settled.wakes, settled.rearm, settled.slots, settled.issued, settled.loose,
        settled.closing, rfl, settled.stirring⟩, .inl (Nat.succ_ne_zero _)⟩
  have done : ∀ q r, Called (s.retireParent cfg parent,
      { d with ripe := none, retired := d.retired + 1 }) q → Called q r →
      Finished d.finishing (s, d) r := by
    intro q r called later
    have both := called.trans later
    exact ⟨both.sameStacks.escaped, both.sameStacks.finishing, both.sameStacks.ripe, both.settled⟩
  unfold completeParent
  refine Follows.get ?_
  rw [show (s, d).1.findParent parent.transaction.id = some parent from found]
  refine Follows.bind (Q := fun _ q => q = (s.retireParent cfg parent,
    { d with ripe := none, retired := d.retired + 1 })) (Follows.modify retire rfl) ?_
  rintro - q - rfl
  refine Follows.get ?_
  have notify : ∀ q, Moves cfg (s.retireParent cfg parent,
        { d with ripe := none, retired := d.retired + 1 }) q →
      Called (s.retireParent cfg parent, { d with ripe := none, retired := d.retired + 1 }) q →
      Obeys cfg (do notifyCapacity cfg parent.completionChannel (← get).now)
        (fun _ r => Finished d.finishing (s, d) r) q := by
    intro q moves called
    refine Follows.get ?_
    refine (notifyCapacity_obeys checked count _ _ (retired.moves moves) called.sameStacks.ripe
      (called.ready ready)).mono ?_
    exact fun _ r _ later => done q r called later
  by_cases callback : (s.retireParent cfg parent).completionCallback = true
  · rw [if_pos callback]
    refine Follows.bind (invokeClient_obeys checked count retired rfl ready) ?_
    rintro - q moves called
    exact notify q moves called
  · rw [if_neg callback]
    exact notify _ .refl (.refl ready)

/-! ### Crediting an access -/

/-- The parent of the access that is credited next, and what makes it sound to
credit it. -/
theorem finishing_parent (checked : cfg.Checked) (run : Run cfg (s, d)) {channel time : Nat}
    {access : LogicalCompletion} {rest : List (Nat × Nat × LogicalCompletion)}
    (popped : d.finishing = (channel, time, access) :: rest) :
    ∃ parent, s.findParent access.parentId = some parent ∧ parent.remainingAccesses ≠ 0 ∧
      (s.controllers channel).outstandingAccesses ≠ 0 := by
  have accounted := run.accounted checked
  obtain ⟨ticket, opened⟩ := accounted.balanced.finishing_open popped
  obtain ⟨parent, mem, rfl, of⟩ := accounted.family.owner _ opened
  refine ⟨parent, ?_, ?_, ?_⟩
  · cases found : s.findParent access.parentId with
    | none =>
        have same : access.parentId = parent.transaction.id := of.parentId
        refine absurd (List.find?_eq_none.mp found parent mem) ?_
        simp [same]
    | some other =>
        obtain ⟨mem', same⟩ := findParent_some found
        obtain rfl := accounted.family.eq_of_id mem' mem (same.trans of.parentId)
        rfl
  · rw [accounted.family.remaining parent mem]
    exact Nat.ne_of_gt (List.countP_pos_iff.mpr ⟨_, opened, by simp⟩)
  · have busy : (s.controllers channel).outstandingAccesses = (workOn s d channel).length :=
      accounted.balanced.outstanding channel
    rw [busy]
    refine Nat.ne_of_gt (List.length_pos_of_mem (a := access.toLogicalAccess) ?_)
    refine List.mem_append_right _ (List.mem_append_right _ (List.mem_append_right _
      (List.mem_append_left _ ?_)))
    unfold Debts.finishingOn
    rw [popped, List.flatMap_cons, if_pos rfl]
    exact List.mem_append_left _ (List.mem_singleton_self _)

variable (cfg) in
/-- The parent after one of its accesses is credited. -/
theorem credit_found (channel : Nat) {access : LogicalCompletion} {parent : ParentRequest}
    (found : s.findParent access.parentId = some parent) :
    (s.credit cfg channel access parent).findParent access.parentId =
      some (creditAccess parent access channel s.now) := by
  obtain ⟨-, id⟩ := findParent_some found
  have keeps : (creditAccess parent access channel s.now).transaction = parent.transaction := by
    unfold creditAccess
    dsimp only
    split <;> rfl
  unfold HbmSystem.findParent at found ⊢
  show (s.parents.map fun r => if r.transaction.id = access.parentId then
    creditAccess parent access channel s.now else r).find? _ = _
  rw [List.find?_map]
  have same : ((fun r : ParentRequest => r.transaction.id == access.parentId) ∘
      fun r => if r.transaction.id = access.parentId then
        creditAccess parent access channel s.now else r) =
      fun r => r.transaction.id == access.parentId := by
    funext r
    show ((if r.transaction.id = access.parentId then
      creditAccess parent access channel s.now else r).transaction.id == access.parentId) = _
    split
    · rename_i hr
      rw [keeps, id, hr]
    · rfl
  rw [same, found]
  simp [id]

theorem finishAccess_obeys (checked : cfg.Checked) (count : cfg.channelCount ≠ 0)
    {channel : Nat} (hchannel : channel < cfg.channelCount) {access : LogicalCompletion}
    {rest : List (Nat × Nat × LogicalCompletion)} (run : Run cfg (s, d))
    (popped : d.finishing = (channel, s.now, access) :: rest) (calm : d.ripe = none)
    (settled : d.escaped = true ∨ d.Settled) :
    Obeys cfg (finishAccess cfg access channel s.now) (fun _ q => Finished rest (s, d) q)
      (s, d) := by
  obtain ⟨parent, found, owed, live⟩ := finishing_parent checked run popped
  obtain ⟨mem, id⟩ := findParent_some found
  have past := (run.accounted checked).family.past parent mem
  have credit : Move cfg (s, d) _ := .credit hchannel popped found live owed calm
  have credited := run.move credit
  have after := Family.creditAccess_eq past access channel
  unfold finishAccess Obeys Follows
  rw [exits_bind, onController_exits hchannel]
  refine (HbmController.completeAccess_exits live).mono (fun _ u h => ?_) (fun _ _ h => h.elim)
  subst h
  simp only [exits_bind, exits_get]
  rw [show (s.update channel (HbmController.finished (cfg.channelConfig channel) (s.side channel)
    access)).findParent access.parentId = some parent from found]
  dsimp only
  rw [if_neg owed]
  simp only [exits_bind, exits_modify]
  refine Follows.resume (q := (s.credit cfg channel access parent, _)) (.single credit) ?_
  by_cases last : parent.remainingAccesses = 1 ∧
      parent.admittedBytes = parent.transaction.sizeBytes
  · have ready : (creditAccess parent access channel s.now).remainingAccesses = 0 ∧
        (creditAccess parent access channel s.now).admittedBytes =
          (creditAccess parent access channel s.now).transaction.sizeBytes := by
      rw [after]
      exact ⟨by rw [last.1], last.2⟩
    rw [if_pos ready]
    have request := credit_found cfg channel found
    have named : access.parentId = (creditAccess parent access channel s.now).transaction.id := by
      rw [after]
      exact id.symm
    rw [named] at request
    have completed := completeParent_obeys checked count credited request ((if_pos last).trans
      (congrArg some named)) ready.1 ready.2 (by rw [after]; rfl) (settled.imp_right fun settled =>
        ⟨settled.wakes, settled.rearm, settled.slots, settled.issued, settled.loose,
          settled.closing,
          rfl, settled.stirring⟩)
    rw [← named] at completed
    refine completed.mono ?_
    exact fun _ q _ h => ⟨h.escaped, h.finishing, h.ripe, h.settled⟩
  · have unready : ¬ ((creditAccess parent access channel s.now).remainingAccesses = 0 ∧
        (creditAccess parent access channel s.now).admittedBytes =
          (creditAccess parent access channel s.now).transaction.sizeBytes) := by
      rw [after]
      show ¬ (parent.remainingAccesses - 1 = 0 ∧ _)
      rintro ⟨zero, all⟩
      exact last ⟨by omega, all⟩
    rw [if_neg unready]
    refine Follows.pure ⟨rfl, rfl, if_neg last, settled.imp_right fun settled => ?_⟩
    exact ⟨settled.wakes, settled.rearm, settled.slots, settled.issued, settled.loose,
      settled.closing, if_neg last, settled.stirring⟩

/-- A completion event finishes its accesses one after the other. -/
theorem finishAccesses_obeys (checked : cfg.Checked) (count : cfg.channelCount ≠ 0)
    {channel : Nat} (hchannel : channel < cfg.channelCount) {now : Nat}
    {rest : List (Nat × Nat × LogicalCompletion)} (accesses : List LogicalCompletion)
    {p : HbmSystem × Debts} (run : Run cfg p) (time : p.1.now = now)
    (finishing : p.2.finishing = accesses.map (fun l => (channel, now, l)) ++ rest)
    (calm : p.2.ripe = none) (settled : p.2.escaped = true ∨ p.2.Settled) :
    Obeys cfg (finishAccesses cfg channel now accesses) (fun _ q => Finished rest p q) p := by
  induction accesses generalizing p with
  | nil => exact Follows.pure ⟨rfl, finishing, calm, settled⟩
  | cons access accesses ih =>
      obtain ⟨s, d⟩ := p
      obtain rfl : s.now = now := time
      unfold finishAccesses
      refine Follows.bind (finishAccess_obeys checked count hchannel run finishing calm settled) ?_
      rintro - q moves first
      refine (ih (run.moves moves) (moves_now moves) first.finishing first.ripe
        (first.escaped ▸ first.settled)).mono ?_
      rintro - r - later
      exact ⟨later.escaped.trans first.escaped, later.finishing, later.ripe,
        first.escaped ▸ later.settled⟩

end

end HbmSim
