import HbmSim.System.Placement
import HbmSim.System.Replay

/-!
Coalescing and writes.

A read takes along the queued reads of its address if no write of its ordering domain
overlaps it. The guard looks at the write queue of the channel. That is enough for the writes
in the queues, since the accesses of one byte are all queued on one channel; but a write that
is not fully admitted has a part that no queue holds yet, and the guard misses it.
-/

namespace HbmSim

open HbmSim.Lib HbmSystem

/-- A transaction has a write of the domain to the byte that is not admitted. -/
def WaitingWrite (s : HbmSystem) (domain byte : Nat) : Prop :=
  ∃ p ∈ s.parents, p.transaction.op = .write ∧ p.transaction.metadata.orderingDomain = domain ∧
    p.transaction.address + p.admittedBytes ≤ byte ∧
      byte < p.transaction.address + p.transaction.sizeBytes

/-- An accepted write of the domain to the byte has not issued: it is queued on some channel,
or still to be admitted. -/
def UnissuedWrite (s : HbmSystem) (domain byte : Nat) : Prop :=
  (∃ channel, ∃ w ∈ (s.controllers channel).writeQueue,
    w.metadata.orderingDomain = domain ∧ w.toLogicalAccess.Covers byte) ∨
  WaitingWrite s domain byte

/-- The transfer a leader shares with its followers crosses no unissued write. -/
def CoalescesSoundly (s : HbmSystem) (leader : LogicalAccess) (followers : List LogicalAccess) :
    Prop :=
  ∀ follower ∈ followers, leader.op = .read ∧ follower.op = .read ∧
    follower.byteAddress = leader.byteAddress ∧ follower.sizeBytes = leader.sizeBytes ∧
    follower.metadata.orderingDomain = leader.metadata.orderingDomain ∧
    ∀ byte, leader.Covers byte → ¬ UnissuedWrite s leader.metadata.orderingDomain byte

instance decidableWaitingWrite (s : HbmSystem) (domain byte : Nat) :
    Decidable (WaitingWrite s domain byte) :=
  inferInstanceAs (Decidable (∃ p ∈ s.parents, _))

namespace HbmController

/-- The accesses of a queue. -/
def logical (c : HbmController) (w : Bool) : List LogicalAccess :=
  (c.queue w).map HbmAccess.toLogicalAccess

/-- A queued access would take the other along. -/
def Merges (config : HbmControllerConfig) (c : HbmController) (leader follower : LogicalAccess) :
    Prop :=
  follower ∈ (c.logical false).erase leader ∧ config.canMerge leader follower = true ∧
    ∀ w ∈ c.logical true, overlapsWrite leader w = false

variable {config : HbmControllerConfig} {mapper : HbmAddressMapper} {s t : ControllerState}
  {now : Nat}

theorem canMerge_iff {leader follower : LogicalAccess}
    (merge : config.canMerge leader follower = true) :
    leader.op = .read ∧ follower.op = .read ∧ follower.byteAddress = leader.byteAddress ∧
      follower.sizeBytes = leader.sizeBytes ∧
      follower.metadata.orderingDomain = leader.metadata.orderingDomain := by
  simp only [HbmControllerConfig.canMerge, Bool.and_eq_true, beq_iff_eq] at merge
  obtain ⟨-, ⟨⟨⟨⟨⟨⟨⟨leads, follows⟩, address⟩, -⟩, -⟩, -⟩, size⟩, domain⟩⟩ := merge
  exact ⟨leads, follows, address.symm, size.symm, domain.symm⟩

/-- The guard sees every write that covers a byte of the read. -/
theorem overlapsWrite_of_covers {read write : LogicalAccess} {byte : Nat}
    (domain : write.metadata.orderingDomain = read.metadata.orderingDomain)
    (reads : read.Covers byte) (writes : write.Covers byte) : overlapsWrite read write = true := by
  unfold LogicalAccess.Covers at reads writes
  unfold overlapsWrite
  rw [Bool.and_eq_true, beq_iff_eq]
  refine ⟨domain, ?_⟩
  split
  · rw [decide_eq_true_eq]
    omega
  · rw [decide_eq_true_eq]
    omega

/-- What is left of a queue without one place is what is left without its access. -/
theorem logical_eraseIdx {queue : List HbmAccess} {index : Nat} {a : HbmAccess}
    (access : queue[index]? = some a) :
    ((queue.eraseIdx index).map HbmAccess.toLogicalAccess).Perm
      ((queue.map HbmAccess.toLogicalAccess).erase a.toLogicalAccess) := by
  obtain ⟨lt, rfl⟩ := List.getElem?_eq_some_iff.mp access
  have split := (List.getElem_cons_eraseIdx_perm lt).map HbmAccess.toLogicalAccess
  have mem : queue[index].toLogicalAccess ∈ queue.map HbmAccess.toLogicalAccess :=
    List.mem_map_of_mem (List.getElem_mem lt)
  exact (List.perm_cons _).mp (split.trans (List.perm_cons_erase mem))

/-- The followers a read takes along. -/
theorem mem_mergeFollowers {c : HbmController} {leader : HbmAccess} {queue : List HbmAccess}
    {follower : LogicalAccess} :
    follower ∈ (mergeFollowers config c leader queue).1.map HbmAccess.toLogicalAccess ↔
      follower ∈ queue.map HbmAccess.toLogicalAccess ∧
        config.canMerge leader.toLogicalAccess follower = true ∧
        ∀ w ∈ c.logical true, overlapsWrite leader.toLogicalAccess w = false := by
  have guard : c.writeQueue.any
      (fun w => overlapsWrite leader.toLogicalAccess w.toLogicalAccess) = false ↔
        ∀ w ∈ c.logical true, overlapsWrite leader.toLogicalAccess w = false := by
    unfold logical
    rw [List.any_eq_false]
    simp only [List.forall_mem_map, Bool.not_eq_true]
    rfl
  rw [← guard]
  unfold mergeFollowers
  split
  · rename_i overlaps
    rw [overlaps]
    simp
  · rename_i free
    simp only [List.map_map, List.mem_map, List.mem_filter, Function.comp_apply]
    constructor
    · rintro ⟨a, ⟨mem, merges⟩, rfl⟩
      exact ⟨⟨a, mem, rfl⟩, merges, by simpa using free⟩
    · rintro ⟨⟨a, mem, rfl⟩, merges, -⟩
      exact ⟨a, ⟨mem, merges⟩, rfl⟩

/-- A data command serves a queued access and those it takes along. -/
theorem DataStep.coalesces (sound : Sound config mapper s.ctl) {physical : PhysicalAccess}
    (step : DataStep config mapper now s physical t) :
    ∃ leader followers, physical.served = leader :: followers ∧ leader ∈ s.ctl.queued ∧
      ∀ follower, follower ∈ followers ↔ s.ctl.Merges config leader follower := by
  cases step with
  | @mk w index _ _ _ a _ _ _ slot demand =>
      have mem : a ∈ s.ctl.queue w := List.mem_of_getElem? demand.access
      unfold PhysicalAccess.served
      rw [physicalAccess_served]
      cases w with
      | true =>
          refine ⟨a.toLogicalAccess, [], congrArg (· :: []) (leader_logical a now), ?_, ?_⟩
          · exact List.mem_append_right _ (List.mem_map_of_mem mem)
          · intro follower
            have side : a.op = .write := sound.op true a mem
            have leads : s.ctl.Merges config a.toLogicalAccess follower → a.op = .read :=
              fun merges => (canMerge_iff merges.2.1).1
            simp only [List.not_mem_nil, false_iff]
            intro merges
            cases side.symm.trans (leads merges)
      | false =>
          refine ⟨a.toLogicalAccess, (mergeFollowers config s.ctl (leader a now)
            ((s.ctl.queue false).eraseIdx index)).1.map HbmAccess.toLogicalAccess,
              congrArg (· :: _) (leader_logical a now), ?_, ?_⟩
          · exact List.mem_append_left _ (List.mem_map_of_mem mem)
          · intro follower
            rw [mem_mergeFollowers, leader_logical, (logical_eraseIdx demand.access).mem_iff]
            exact Iff.rfl

end HbmController

/-! ### The transfer of an event -/

/-- The next event drives a channel's controller: the channel, and the call. -/
def HbmSystem.nextDrive (cfg : HbmConfig) (s : HbmSystem) :
    Option (Nat × EStateM.Result HbmError ControllerState HbmControllerStep) :=
  match s.scheduler.events with
  | [] => none
  | event :: _ =>
      match event.callback with
      | .wake channel at_ =>
          some (channel, HbmController.drive (cfg.channelConfig channel) cfg.mapper event.time
            ⟨(s.controllers channel).clearWakeup at_, s.stats⟩)
      | _ => none

/-- The transfer that the next event issues, with its channel. -/
def HbmSystem.nextTransfer (cfg : HbmConfig) (s : HbmSystem) : Option (Nat × PhysicalAccess) :=
  match s.nextDrive cfg with
  | some (channel, .ok step _) => step.issuedAccess.map (Prod.mk channel)
  | _ => none

/-- A queued read would take another along although a write of its domain waits for admission
on its bytes. -/
def MergesAcrossWaiting (cfg : HbmConfig) (s : HbmSystem) (channel : Nat)
    (leader : LogicalAccess) : Prop :=
  (∃ follower, (s.controllers channel).Merges (cfg.channelConfig channel) leader follower) ∧
    ∃ byte, leader.Covers byte ∧ WaitingWrite s leader.metadata.orderingDomain byte

section

variable {cfg : HbmConfig} {s : HbmSystem} {channel : Nat} {physical : PhysicalAccess}

theorem nextTransfer_some (next : s.nextTransfer cfg = some (channel, physical)) :
    ∃ event rest at_ step t, s.scheduler.events = event :: rest ∧
      event.callback = .wake channel at_ ∧
      HbmController.drive (cfg.channelConfig channel) cfg.mapper event.time
        ⟨(s.controllers channel).clearWakeup at_, s.stats⟩ = .ok step t ∧
      step.issuedAccess = some physical := by
  unfold nextTransfer nextDrive at next
  cases events : s.scheduler.events with
  | nil =>
      rw [events] at next
      cases next
  | cons event rest =>
      rw [events] at next
      dsimp only at next
      cases callback : event.callback with
      | wake channel' at_ =>
          rw [callback] at next
          dsimp only at next
          split at next
          · rename_i channel'' step t drives
            simp only [Option.some.injEq, Prod.mk.injEq] at drives
            obtain ⟨rfl, drives⟩ := drives
            simp only [Option.map_eq_some_iff, Prod.mk.injEq] at next
            obtain ⟨_, issued, rfl, rfl⟩ := next
            exact ⟨event, rest, at_, step, t, rfl, callback, drives, issued⟩
          · cases next
      | _ =>
          rw [callback] at next
          cases next

/-- The next transfer serves a queued access and those it takes along. -/
theorem nextTransfer_serves {d : Debts} (checked : cfg.Checked) (point : Point cfg s d)
    (next : s.nextTransfer cfg = some (channel, physical)) :
    ∃ leader followers, physical.served = leader :: followers ∧
      leader ∈ (s.controllers channel).queued ∧ ∀ follower, follower ∈ followers ↔
        (s.controllers channel).Merges (cfg.channelConfig channel) leader follower := by
  obtain ⟨event, rest, at_, step, t, events, callback, drives, issued⟩ := nextTransfer_some next
  have stamped := point.run.scheduled.stamped event (events ▸ List.mem_cons_self)
  rw [callback] at stamped
  obtain ⟨rfl, hchannel⟩ := stamped
  have turn : Turn cfg (s, d) _ := .wake events callback hchannel point.settled
  have cleared := (point.run.turn turn).sound checked channel
  rw [modifyController_controllers, if_pos rfl] at cleared
  have same := clearWakeup_queue (s.controllers channel) event.time
  generalize before : ControllerState.mk ((s.controllers channel).clearWakeup event.time)
    s.stats = u at drives
  have sound : Sound (cfg.channelConfig channel) cfg.mapper u.ctl := before ▸ cleared
  have queues : ∀ w, u.ctl.queue w = (s.controllers channel).queue w :=
    fun w => before ▸ (same w).1
  have driven := @HbmController.drive_exits _ _ u event.time (checked.wiring channel) sound
  unfold Exits at driven
  rw [drives] at driven
  cases driven with
  | @data v _ touched step =>
      cases issued
      have logical : ∀ w, v.ctl.logical w = (s.controllers channel).logical w := by
        intro w
        unfold HbmController.logical
        rw [HbmController.Retouched.logical touched, queues]
      have queued : v.ctl.queued = (s.controllers channel).queued := by
        have reads := logical false
        have writes := logical true
        unfold HbmController.logical at reads writes
        unfold HbmController.queued
        rw [reads, writes]
      obtain ⟨leader, followers, served, mem, follows⟩ :=
        step.coalesces (sound.retouched touched)
      refine ⟨leader, followers, served, queued ▸ mem, fun follower => ?_⟩
      rw [follows]
      unfold HbmController.Merges
      rw [logical, logical]
  | _ => cases issued

/-- A transfer crosses an unissued write exactly when it takes a read along while a write of
the domain waits for admission on its bytes. -/
theorem coalesces_soundly_iff {escapes : HbmError → Prop} (reached : Reachable cfg escapes s)
    (next : s.nextTransfer cfg = some (channel, physical)) :
    ∃ leader followers, physical.served = leader :: followers ∧
      leader ∈ (s.controllers channel).queued ∧
      (CoalescesSoundly s leader followers ↔ ¬ MergesAcrossWaiting cfg s channel leader) := by
  obtain ⟨valid, -, d, point, -⟩ := reached.point
  obtain ⟨leader, followers, served, queued, follows⟩ :=
    nextTransfer_serves valid.checked point next
  refine ⟨leader, followers, served, queued, fun sound => ?_, fun apart follower mem => ?_⟩
  · rintro ⟨⟨follower, merges⟩, byte, covers, waits⟩
    obtain ⟨-, -, -, -, -, nothing⟩ := sound follower ((follows follower).mpr merges)
    exact nothing byte covers (.inr waits)
  · have merges := (follows follower).mp mem
    obtain ⟨leads, reads, address, size, domain⟩ := HbmController.canMerge_iff merges.2.1
    refine ⟨leads, reads, address, size, domain, fun byte covers => ?_⟩
    rintro (⟨other, w, hw, domain', writes⟩ | waits)
    · have mine := point.run.queued_placed valid queued byte covers
      have theirs := point.run.queued_placed valid
        (List.mem_append_right _ (List.mem_map_of_mem hw)) byte writes
      obtain rfl : other = channel := theirs.symm.trans mine
      have overlaps := HbmController.overlapsWrite_of_covers domain' covers writes
      rw [merges.2.2 _ (List.mem_map_of_mem hw)] at overlaps
      cases overlaps
    · exact apart ⟨⟨follower, merges⟩, byte, covers, waits⟩

/-! ### A write that waits behind a full queue -/

/-- The next transfer is shared. -/
def sharesTransfer (cfg : HbmConfig) (s : HbmSystem) : Bool :=
  (s.nextTransfer cfg).any fun x => decide (2 ≤ x.2.served.length)

/-- The next transfer is led by a read of the byte, and a write to it waits for admission. -/
def readsWaiting (cfg : HbmConfig) (byte : Nat) (s : HbmSystem) : Bool :=
  (s.nextTransfer cfg).any fun x =>
    x.2.served.head?.any fun leader =>
      decide (leader.Covers byte ∧ WaitingWrite s leader.metadata.orderingDomain byte)

theorem exists_shared (shares : sharesTransfer cfg s = true) :
    ∃ channel physical leader follower rest, s.nextTransfer cfg = some (channel, physical) ∧
      physical.served = leader :: follower :: rest := by
  obtain ⟨⟨channel, physical⟩, next, several⟩ := Option.any_eq_true _ _ |>.mp shares
  rw [decide_eq_true_eq] at several
  cases served : physical.served with
  | nil =>
      rw [served] at several
      cases several
  | cons leader followers =>
      cases followers with
      | nil =>
          rw [served] at several
          exact absurd several (by simp)
      | cons follower rest => exact ⟨channel, physical, leader, follower, rest, next, served⟩

/-- Two reads of one burst share a transfer if no write is active. -/
theorem coalesces_soundly_reads : ∃ s channel physical leader follower rest,
    HbmSystem.nextTransfer .hbm2_2000 s = some (channel, physical) ∧
      physical.served = leader :: follower :: rest ∧
      CoalescesSoundly s leader (follower :: rest) := by
  obtain ⟨s, reached, final⟩ := exists_reachable .hbm2_2000 NoEscape
    (submit (.read 1 32 32) :: submit (.read 2 32 32) :: dispatches 2)
    (fun s => sharesTransfer .hbm2_2000 s && s.parents.all fun p => p.transaction.op == .read)
    (by decide) (by decide) (by decide +kernel)
  rw [Bool.and_eq_true, List.all_eq_true] at final
  obtain ⟨shares, reads⟩ := final
  obtain ⟨channel, physical, leader, follower, rest, next, served⟩ := exists_shared shares
  obtain ⟨leader', followers, served', -, sound⟩ := coalesces_soundly_iff reached next
  obtain ⟨rfl, rfl⟩ := List.cons.inj (served.symm.trans served')
  refine ⟨s, channel, physical, leader, follower, rest, next, served, sound.mpr ?_⟩
  rintro ⟨-, byte, -, p, mem, writes, -⟩
  have reads := reads p mem
  rw [writes] at reads
  cases reads

/-- HBM2 with room for one write on each channel. -/
def HbmConfig.oneWriteSlot : HbmConfig :=
  { hbm2_2000 with
    controller := { requestMergePolicy := .sameAddressRead, writeQueueCapacity := 1 } }

/-- The second burst of a write waits for its slot while two reads of it share a transfer. -/
theorem not_coalesces_soundly : ¬ ∀ cfg : HbmConfig,
    cfg.controller.requestMergePolicy = .sameAddressRead → ∀ s channel physical,
      Reachable cfg NoEscape s → s.nextTransfer cfg = some (channel, physical) →
        ∀ leader followers, physical.served = leader :: followers →
          CoalescesSoundly s leader followers := by
  intro claim
  obtain ⟨s, reached, final⟩ := exists_reachable .oneWriteSlot NoEscape
    (submit (.write 1 0 64) :: submit (.read 2 32 32) :: submit (.read 3 32 32) :: dispatches 2)
    (fun s => sharesTransfer .oneWriteSlot s && readsWaiting .oneWriteSlot 32 s)
    (by decide) (by decide) (by decide +kernel)
  rw [Bool.and_eq_true] at final
  obtain ⟨shares, waits⟩ := final
  obtain ⟨channel, physical, leader, follower, rest, next, served⟩ := exists_shared shares
  have sound := claim _ rfl s channel physical reached next leader _ served
  obtain ⟨-, -, -, -, -, nothing⟩ := sound follower List.mem_cons_self
  unfold readsWaiting at waits
  rw [next, Option.any_some, served, List.head?_cons, Option.any_some, decide_eq_true_eq] at waits
  exact nothing 32 waits.1 (.inr waits.2)

end

end HbmSim
