import HbmSim.System.Dues
import HbmSim.System.Ledger

/-!
A run seen from one channel.

Whatever the system does is, for one controller, a step of its own, a data
command, or an aside: a mark, a reservation, an admission or a completion. What
every beat keeps holds of the controller in every state of a run.
-/

namespace HbmSim

open HbmSim.Lib HbmSystem

/-- The bus and refresh statistics of two records agree. -/
structure SameTraffic (a b : ChannelStats) : Prop where
  dataBus : b.dataBusBusyTime = a.dataBusBusyTime
  commandBus : b.commandBus = a.commandBus
  rowBus : b.rowCommandBus = a.rowCommandBus
  columnBus : b.columnCommandBus = a.columnCommandBus
  refreshes : b.refreshes = a.refreshes
  perBankRefreshes : b.perBankRefreshes = a.perBankRefreshes

theorem SameTraffic.refl (a : ChannelStats) : SameTraffic a a := ⟨rfl, rfl, rfl, rfl, rfl, rfl⟩

namespace HbmController

/-- What the system does to a controller besides its steps. -/
inductive Aside (config : HbmControllerConfig) (mapper : HbmAddressMapper) (now : Nat)
    (c : HbmController) : HbmController → Prop
  | mark (wakeupAt refreshDueAt : Option Nat) :
      Aside config mapper now c { c with wakeupAt := wakeupAt, refreshDueAt := refreshDueAt }
  | reserve (reads writes : Nat) :
      Aside config mapper now c { c with reservedReads := reads, reservedWrites := writes }
  | push {a : HbmAccess} (mapped : Mapped config mapper a.address) (arrived : a.arrivalTime ≤ now)
      (blank : a = { toLogicalAccess := a.toLogicalAccess, enqueuedAt := a.arrivalTime }) :
      Aside config mapper now c (c.push a)
  | finish : Aside config mapper now c { c with outstandingAccesses := c.outstandingAccesses - 1 }

/-- One beat of a channel. A data command comes no later than a due refresh, unless
the run is exempt. -/
inductive Beat (config : HbmControllerConfig) (mapper : HbmAddressMapper) (now : Nat)
    (exempt : Prop) (s t : ControllerState) : Prop
  | step (step : ControllerStep config mapper now s t)
  | data {physical : PhysicalAccess} (step : DataStep config mapper now s physical t)
      (timely : exempt ∨ ∀ due, s.ctl.nextRefreshDue = some due → now ≤ due)
  | lose {lost : List LogicalAccess} (step : LostStep config mapper now s lost t)
      (timely : exempt ∨ ∀ due, s.ctl.nextRefreshDue = some due → now ≤ due)
  | aside (aside : Aside config mapper now s.ctl t.ctl)
      (traffic : SameTraffic (s.stats.channels config.channel) (t.stats.channels config.channel))

variable {config : HbmControllerConfig} {mapper : HbmAddressMapper} {s t : ControllerState}
  {now : Nat}

/-! ### Statistics of other channels -/

theorem modifyQueue_of_ne (stats : HbmStats) {channel c : Nat} (h : c ≠ channel)
    (f : QueueStats → QueueStats) :
    (stats.modifyQueue channel f).channels c = stats.channels c :=
  HbmStats.modifyChannel_of_ne stats h _

theorem countCommand_of_ne (stats : HbmStats) (r : RecordedCommand) {c : Nat}
    (h : c ≠ config.channel) : (countCommand config stats r).channels c = stats.channels c := by
  rw [countCommand_channels]
  exact HbmStats.modifyChannel_of_ne stats h _

theorem countMaintenance_of_ne (stats : HbmStats) (k : HbmCommand) {c : Nat}
    (h : c ≠ config.channel) : (countMaintenance config stats k).channels c = stats.channels c := by
  unfold countMaintenance
  split <;> simp [HbmStats.modifyChannel, h]

theorem countStarts_of_ne (stats : HbmStats) (items : List HbmAccess) (at_ : Nat) {c : Nat}
    (h : c ≠ config.channel) : (countStarts config stats items at_).channels c =
      stats.channels c := by
  unfold countStarts
  split
  · exact modifyQueue_of_ne stats h _
  · rfl

theorem activatedState_stats {w : Bool} {index : Nat} {a : HbmAccess} {r : RecordedCommand}
    {banks : List HbmBankState} :
    (activatedState config s w index a r banks).stats =
      countCommand config (countStarts config s.stats [a] r.issuedAt) r := rfl

theorem prechargedState_stats {w : Bool} {index : Nat} {a : HbmAccess} {r : RecordedCommand}
    {bank : HbmBankState} {banks : List HbmBankState} :
    (prechargedState config s w index a r bank banks).stats =
      countCommand config (countStarts config s.stats [a] r.issuedAt) r := rfl

/-- A step writes to the record of its own channel only. -/
theorem ControllerStep.stats_of_ne (step : ControllerStep config mapper now s t) {c : Nat}
    (h : c ≠ config.channel) : t.stats.channels c = s.stats.channels c := by
  cases step with
  | retouch touched =>
      obtain ⟨f, -, hf⟩ := touched.stats
      rw [hf]
      exact modifyQueue_of_ne _ h f
  | raise => rfl
  | advanceDue => rfl
  | maintain step =>
      cases step with
      | mk =>
          unfold maintained
          dsimp only
          split
          · exact (countMaintenance_of_ne _ _ h).trans (countCommand_of_ne _ _ h)
          · exact countCommand_of_ne _ _ h
  | row step =>
      cases step with
      | @activate w index _ a =>
          rw [activatedState_stats, countCommand_of_ne _ _ h, countStarts_of_ne _ _ _ h]
      | @precharge w index _ a =>
          rw [prechargedState_stats, countCommand_of_ne _ _ h, countStarts_of_ne _ _ _ h]

theorem DataStep.stats_of_ne {physical : PhysicalAccess}
    (step : DataStep config mapper now s physical t) {c : Nat} (h : c ≠ config.channel) :
    t.stats.channels c = s.stats.channels c := by
  cases step with
  | @mk w index _ _ _ a =>
      show (countTransfer config (countStarts config (HbmStats.modifyQueue (countCommand config
        (countStarts config s.stats [a] now) _) config.channel _) _ _) _ _ _ _).channels c = _
      unfold countTransfer
      rw [HbmStats.modifyChannel_of_ne _ h, countStarts_of_ne _ _ _ h, modifyQueue_of_ne _ h,
        countCommand_of_ne _ _ h, countStarts_of_ne _ _ _ h]

/-- A command is issued for a queued access. -/
theorem Demand.queued_ne_nil {c : HbmController} {w : Bool} {index : Nat} {a : HbmAccess}
    {k : HbmCommand} (demand : Demand config mapper c now w index a k) : c.queued ≠ [] := by
  have mem : a.toLogicalAccess ∈ (c.queue w).map HbmAccess.toLogicalAccess :=
    List.mem_map_of_mem (List.mem_of_getElem? demand.access)
  unfold HbmController.queued
  cases w with
  | false => exact List.ne_nil_of_mem (List.mem_append_left _ mem)
  | true => exact List.ne_nil_of_mem (List.mem_append_right _ mem)

/-- A transfer is for an access that was queued. -/
theorem DataStep.queued_ne_nil {physical : PhysicalAccess}
    (step : DataStep config mapper now s physical t) : s.ctl.queued ≠ [] := by
  cases step with
  | mk demand => exact demand.queued_ne_nil

theorem takenState_stats {w : Bool} {index : Nat} {a : HbmAccess} {r : RecordedCommand}
    {banks : List HbmBankState} :
    (takenState config s w index a r banks).stats =
      (countCommand config (countStarts config s.stats [a] r.issuedAt) r).modifyQueue config.channel
        fun q => { q with
          mergedAccesses := q.mergedAccesses +
            ((takeAccesses config (commandIssued config s w index a r).ctl w index
              (leader a r.issuedAt)).1.length - 1) } := rfl

theorem LostStep.stats_of_ne {lost : List LogicalAccess}
    (step : LostStep config mapper now s lost t) {c : Nat} (h : c ≠ config.channel) :
    t.stats.channels c = s.stats.channels c := by
  cases step with
  | @mk w index _ a =>
      rw [takenState_stats, modifyQueue_of_ne _ h, countCommand_of_ne _ _ h,
        countStarts_of_ne _ _ _ h]

/-- A data command serves or loses a queued access. -/
theorem LostStep.queued_ne_nil {lost : List LogicalAccess}
    (step : LostStep config mapper now s lost t) : s.ctl.queued ≠ [] := by
  cases step with
  | @mk w index _ a _ _ _ demand => exact demand.queued_ne_nil

end HbmController

section

variable {cfg : HbmConfig}

open HbmController

theorem Beat.same {config : HbmControllerConfig} {mapper : HbmAddressMapper} {now : Nat}
    {exempt : Prop} {s t : ControllerState} (ctl : t.ctl = s.ctl)
    (traffic : SameTraffic (s.stats.channels config.channel) (t.stats.channels config.channel)) :
    Beat config mapper now exempt s t := by
  refine .aside ?_ traffic
  rw [ctl]
  exact .mark s.ctl.wakeupAt s.ctl.refreshDueAt

/-- A change of another channel's controller is no change of this one's. -/
theorem Beat.other {s t : HbmSystem} {channel ch : Nat} {exempt : Prop} {c : HbmController}
    (controllers : ∀ ch, t.controllers ch = if ch = channel then c else s.controllers ch)
    (stats : ∀ ch ≠ channel, t.stats.channels ch = s.stats.channels ch)
    (own : ch = channel → Beat (cfg.channelConfig ch) cfg.mapper s.now exempt (s.side ch) (t.side ch)) :
    Beat (cfg.channelConfig ch) cfg.mapper s.now exempt (s.side ch) (t.side ch) := by
  by_cases hch : ch = channel
  · exact own hch
  · refine Beat.same ?_ ?_
    · show t.controllers ch = s.controllers ch
      rw [controllers, if_neg hch]
    · show SameTraffic (s.stats.channels ch) (t.stats.channels ch)
      rw [stats ch hch]
      exact .refl _

/-- Queue statistics are no traffic. -/
theorem SameTraffic.modifyQueue (stats : HbmStats) (channel ch : Nat)
    (f : QueueStats → QueueStats) :
    SameTraffic (stats.channels ch) ((stats.modifyQueue channel f).channels ch) := by
  by_cases hch : ch = channel
  · subst hch
    rw [HbmStats.modifyQueue, HbmStats.modifyChannel_self]
    exact ⟨rfl, rfl, rfl, rfl, rfl, rfl⟩
  · rw [modifyQueue_of_ne _ hch]
    exact .refl _

theorem push_stats (cfg : HbmConfig) (s : HbmSystem) (access : HbmAccess) :
    ∃ f, (s.push cfg access).stats = s.stats.modifyQueue access.address.flatChannel f :=
  let c := (s.controllers access.address.flatChannel).push
    { access with enqueuedAt := access.arrivalTime }
  ⟨fun q => { q with
    maxReadDepth := max q.maxReadDepth c.readQueue.length
    maxWriteDepth := max q.maxWriteDepth c.writeQueue.length }, rfl⟩

/-- A credited access counts on its channel, and as no traffic. -/
theorem credit_channels (cfg : HbmConfig) (s : HbmSystem) (channel : Nat)
    (access : LogicalCompletion) (parent : ParentRequest) :
    ∃ f, (s.credit cfg channel access parent).stats.channels =
      (s.stats.modifyChannel channel f).channels ∧ ∀ c, SameTraffic c (f c) := by
  refine ⟨fun c => { c with completedBytes := c.completedBytes + access.sizeBytes }, ?_,
    fun _ => ⟨rfl, rfl, rfl, rfl, rfl, rfl⟩⟩
  obtain ⟨l, k⟩ := access
  cases k <;> rfl

theorem countRejection_channels (s : HbmSystem) (channel : Nat) :
    ∃ f, (s.countRejection channel).stats.channels = (s.stats.modifyQueue channel f).channels :=
  ⟨fun q => { q with rejectedTransactions := q.rejectedTransactions + 1 }, rfl⟩

/-- A channel with something queued has something outstanding. -/
theorem outstanding_of_queued {s : HbmSystem} {d : Debts} (balanced : Balanced s d) {ch : Nat}
    (queued : (s.controllers ch).queued ≠ []) : (s.controllers ch).outstandingAccesses ≠ 0 := by
  have taken : (s.controllers ch).outstandingAccesses =
    ((s.controllers ch).queued ++ _).length := balanced.outstanding ch
  have busy := List.length_pos_of_ne_nil queued
  rw [List.length_append] at taken
  omega

/-- A channel with something queued is not past its next due instant. -/
theorem timely_of_queued {s : HbmSystem} {d : Debts} (punctual : Punctual cfg s d)
    (balanced : Balanced s d) {ch : Nat} (queued : (s.controllers ch).queued ≠ []) :
    (d.escaped = true ∨ Overflowed cfg s) ∨
      ∀ due, (s.controllers ch).nextRefreshDue = some due → s.now ≤ due := by
  rcases punctual with lost | passed | armed
  · exact .inl (.inl lost)
  · exact .inl (.inr passed)
  · exact .inr (armed.future ch (outstanding_of_queued balanced queued))

/-- What a move is for one channel. -/
theorem HbmSystem.Move.beat {p q : HbmSystem × Debts} (move : Move cfg p q)
    (punctual : Punctual cfg p.1 p.2) (balanced : Balanced p.1 p.2) (ch : Nat) :
    Beat (cfg.channelConfig ch) cfg.mapper p.1.now (p.2.escaped = true ∨ Overflowed cfg p.1)
      (p.1.side ch) (q.1.side ch) := by
  -- every move is about one channel: the others only see statistics that are not theirs
  cases move with
  | @control s d channel t _ step =>
      refine Beat.other (update_controllers s channel t) (fun c h => step.stats_of_ne h) ?_
      rintro rfl
      refine .step ?_
      have same : (s.update ch t).side ch = t := by simp [side, update, setController]
      rwa [same]
  | @stir s d channel t _ step =>
      refine Beat.other (update_controllers s channel t) (fun c h => step.stats_of_ne h) ?_
      rintro rfl
      refine .step ?_
      have same : (s.update ch t).side ch = t := by simp [side, update, setController]
      rwa [same]
  | @transfer s d channel physical t _ step armed =>
      refine Beat.other (update_controllers s channel t) (fun c h => step.stats_of_ne h) ?_
      rintro rfl
      have same : (s.update ch t).side ch = t := by simp [side, update, setController]
      show Beat _ _ _ _ _ ((s.update ch t).side ch)
      rw [same]
      refine .data step ?_
      refine (timely_of_queued punctual balanced step.queued_ne_nil).imp_left ?_
      exact fun exempt => exempt
  | @wake s d channel at_ =>
      refine Beat.other (markWake_controllers s channel at_) (fun _ _ => rfl) ?_
      rintro rfl
      refine .aside ?_ (.refl _)
      show Aside _ _ _ (s.controllers ch) ((s.markWake ch at_).controllers ch)
      rw [markWake_controllers, if_pos rfl]
      exact .mark (some at_) _
  | @arm s d channel due =>
      refine Beat.other (markRefresh_controllers s channel due) (fun _ _ => rfl) ?_
      rintro rfl
      refine .aside ?_ (.refl _)
      show Aside _ _ _ (s.controllers ch) ((s.markRefresh ch due).controllers ch)
      rw [markRefresh_controllers, if_pos rfl]
      exact .mark _ (some due)
  | @misarm s d channel due =>
      have same := modifyController_controllers s channel fun c =>
        { c with refreshDueAt := some due }
      refine Beat.other same (fun _ _ => rfl) ?_
      rintro rfl
      refine .aside ?_ (.refl _)
      show Aside _ _ _ (s.controllers ch) _
      rw [side_ctl, same, if_pos rfl]
      exact .mark _ (some due)
  | @charge s d parent access =>
      refine Beat.other (charge_controllers s parent access) (fun _ _ => rfl) ?_
      rintro rfl
      refine .aside ?_ (.refl _)
      show Aside _ _ _ (s.controllers _) _
      rw [side_ctl, charge_controllers, if_pos rfl]
      exact .reserve _ _
  | @push s d access rest _ _ _ _ blank mapped arrived =>
      obtain ⟨f, hf⟩ := push_stats cfg s access
      refine Beat.other (push_controllers cfg s access)
        (fun c h => by rw [hf, modifyQueue_of_ne s.stats h]) ?_
      rintro rfl
      refine .aside ?_ ?_
      · show Aside _ _ _ (s.controllers _) _
        rw [side_ctl, push_controllers, if_pos rfl]
        refine .push mapped arrived ?_
        show _ = ({ toLogicalAccess := access.toLogicalAccess, enqueuedAt := access.arrivalTime } :
          HbmAccess)
        rw [blank]
      · show SameTraffic (s.stats.channels _) ((s.push cfg access).stats.channels _)
        rw [hf]
        exact .modifyQueue s.stats _ _ f
  | @credit s d channel access parent =>
      obtain ⟨f, hf, same⟩ := credit_channels cfg s channel access parent
      refine Beat.other (credit_controllers cfg s channel access parent)
        (fun c h => by rw [hf, HbmStats.modifyChannel_of_ne s.stats h]) ?_
      rintro rfl
      refine .aside ?_ ?_
      · show Aside _ _ _ (s.controllers _) _
        rw [side_ctl, credit_controllers, if_pos rfl]
        exact .finish
      · show SameTraffic (s.stats.channels _) ((s.credit cfg ch access parent).stats.channels _)
        rw [hf]
        show SameTraffic _ ((s.stats.modifyChannel ch f).channels ch)
        rw [HbmStats.modifyChannel_self]
        exact same _
  | @reject s d channel =>
      obtain ⟨f, hf⟩ := countRejection_channels s channel
      refine Beat.same rfl ?_
      show SameTraffic (s.stats.channels ch) ((s.countRejection channel).stats.channels ch)
      rw [hf]
      exact .modifyQueue s.stats channel ch f
  | _ => exact Beat.same rfl (.refl _)

/-- What a turn is for one channel. -/
theorem HbmSystem.Turn.beat {p q : HbmSystem × Debts} (turn : Turn cfg p q)
    (punctual : Punctual cfg p.1 p.2) (balanced : Balanced p.1 p.2) (ch : Nat) :
    Beat (cfg.channelConfig ch) cfg.mapper p.1.now (p.2.escaped = true ∨ Overflowed cfg p.1)
      (p.1.side ch) (q.1.side ch) := by
  cases turn with
  | @wake s d event rest channel =>
      refine Beat.other (modifyController_controllers (s.pop event rest) channel _)
        (fun _ _ => rfl) ?_
      rintro rfl
      refine .aside ?_ (.refl _)
      show Aside _ _ _ (s.controllers ch) _
      rw [side_ctl, modifyController_controllers, if_pos rfl]
      show Aside _ _ _ (s.controllers ch) ((s.controllers ch).clearWakeup event.time)
      unfold HbmController.clearWakeup
      split
      · exact .mark none _
      · exact .mark (s.controllers ch).wakeupAt (s.controllers ch).refreshDueAt
  | @refreshDue s d event rest channel =>
      refine Beat.other (modifyController_controllers (s.pop event rest) channel _)
        (fun _ _ => rfl) ?_
      rintro rfl
      refine .aside ?_ (.refl _)
      show Aside _ _ _ (s.controllers ch) _
      rw [side_ctl, modifyController_controllers, if_pos rfl]
      show Aside _ _ _ (s.controllers ch) ((s.controllers ch).disarm event.time)
      unfold HbmController.disarm
      split
      · exact .mark _ none
      · exact .mark (s.controllers ch).wakeupAt (s.controllers ch).refreshDueAt
  | @lose s d channel lost t _ step =>
      refine Beat.other (update_controllers s channel t) (fun c h => step.stats_of_ne h) ?_
      rintro rfl
      have same : (s.update ch t).side ch = t := by simp [side, update, setController]
      show Beat _ _ _ _ _ ((s.update ch t).side ch)
      rw [same]
      exact .lose step (timely_of_queued punctual balanced step.queued_ne_nil)
  | _ => exact Beat.same rfl (.refl _)

/-! ### The shape of the controllers -/

/-- Every beat of a channel keeps its controller sound. -/
theorem Sound.beat {config : HbmControllerConfig} {mapper : HbmAddressMapper} {now : Nat}
    {exempt : Prop} {s t : ControllerState} (sound : Sound config mapper s.ctl)
    (beat : Beat config mapper now exempt s t) : Sound config mapper t.ctl := by
  cases beat with
  | step step => exact sound.step step
  | data step => exact sound.dataStep step
  | lose step => exact sound.lostStep step
  | aside aside =>
      generalize t.ctl = c at aside
      cases aside with
      | mark => exact sound.change rfl sound.rfm rfl (fun w a ha => ⟨a, ha, rfl⟩) rfl
      | reserve => exact sound.change rfl sound.rfm rfl (fun w a ha => ⟨a, ha, rfl⟩) rfl
      | finish => exact sound.change rfl sound.rfm rfl (fun w a ha => ⟨a, ha, rfl⟩) rfl
      | @push a mapped =>
          refine ⟨sound.banks, sound.buses, fun w b hb => ?_, fun w b hb => ?_, sound.rfm,
            sound.rotation⟩
          · rw [push_queue] at hb
            split at hb
            · rcases List.mem_append.mp hb with hb | hb
              · exact sound.mapped w b hb
              · obtain rfl := List.mem_singleton.mp hb
                exact mapped
            · exact sound.mapped w b hb
          · rw [push_queue] at hb
            split at hb
            · rename_i hw
              rcases List.mem_append.mp hb with hb | hb
              · exact sound.op w b hb
              · obtain rfl := List.mem_singleton.mp hb
                rw [hw]
                cases b.op <;> rfl
            · exact sound.op w b hb

theorem sound_initial {config : HbmControllerConfig} {mapper : HbmAddressMapper} :
    Sound config mapper (HbmController.initial config) where
  banks := List.length_replicate
  buses := List.length_replicate
  mapped w a ha := by cases w <;> cases ha
  op w a ha := by cases w <;> cases ha
  rfm b hb hpending := by
    obtain rfl := List.eq_of_mem_replicate hb
    cases hpending
  rotation h := List.length_pos_of_ne_nil h

/-- What holds of a new controller, survives the clock moving on, and is kept by
every beat of a sound controller, holds of every controller in every state. -/
theorem HbmSystem.Run.channel (checked : cfg.Checked) (ch : Nat)
    {P : Nat → Prop → ControllerState → Prop}
    (start : P 0 False ((initial cfg).side ch))
    (later : ∀ {now now' exempt exempt' s}, now ≤ now' → (exempt → exempt') → P now exempt s →
      P now' exempt' s)
    (beat : ∀ {now exempt s t}, Sound (cfg.channelConfig ch) cfg.mapper s.ctl → P now exempt s →
      Beat (cfg.channelConfig ch) cfg.mapper now exempt s t → P now exempt t)
    {p : HbmSystem × Debts} (run : Run cfg p) :
    Sound (cfg.channelConfig ch) cfg.mapper (p.1.controllers ch) ∧
      P p.1.now (p.2.escaped = true ∨ Overflowed cfg p.1) (p.1.side ch) := by
  induction run with
  | create =>
      refine ⟨sound_initial, later (Nat.le_refl _) False.elim start⟩
  | @move p q run move ih =>
      obtain ⟨sound, ih⟩ := ih
      have beats := move.beat run.punctual (run.accounted checked).balanced ch
      refine ⟨Sound.beat sound beats, later ?_ ?_ (beat sound ih beats)⟩
      · cases move <;> exact Nat.le_refl _
      · rintro (lost | passed)
        · refine .inl ?_
          cases move <;> exact lost
        · exact .inr (passed.move move)
  | @turn p q run turn ih =>
      obtain ⟨sound, ih⟩ := ih
      have beats := turn.beat run.punctual (run.accounted checked).balanced ch
      refine ⟨Sound.beat sound beats, later (turn.now_le run.scheduled) ?_ (beat sound ih beats)⟩
      rintro (lost | passed)
      · refine .inl ?_
        cases turn <;> first | exact lost | rfl
      · exact .inr (passed.turn turn run.scheduled)

/-- In every run every controller is sound. -/
theorem HbmSystem.Run.sound (checked : cfg.Checked) {p : HbmSystem × Debts} (run : Run cfg p)
    (ch : Nat) : Sound (cfg.channelConfig ch) cfg.mapper (p.1.controllers ch) :=
  let P : Nat → Prop → ControllerState → Prop := fun _ _ _ => True
  have start : P 0 False ((initial cfg).side ch) := trivial
  (run.channel checked ch start (fun _ _ _ => trivial) fun _ _ _ => trivial).1

end

end HbmSim
