import HbmSim.System.Cadence
import HbmSim.System.Obligations
import HbmSim.System.Replay

/-!
Refresh keeps its cadence, and keeps its obligations unless they overlap.

From its first admission on, a channel raises one refresh obligation at every interval,
each once and in order, and in per-bank mode bank after bank. What it has raised it has
issued or still owes, as long as no obligation falls due while the flag it sets is set.
-/

namespace HbmSim

open HbmSim.Lib HbmSystem

/-- A channel's refresh obligations keep the cadence its first admission started. -/
structure RefreshCadence (cfg : HbmConfig) (s : HbmSystem) (channel : Nat) : Prop where
  unstarted : admissions s.trace channel = [] →
    (s.controllers channel).raised = [] ∧ (s.controllers channel).nextRefreshDue = none
  /-- The obligations raised so far are those of the first due instants, in order. -/
  raised : ∀ start, (admissions s.trace channel).getLast? = some start →
    (s.controllers channel).raised = dueInstants start cfg.controller.refreshInterval
      (s.controllers channel).raised.length
  next : ∀ start, (admissions s.trace channel).getLast? = some start →
    (s.controllers channel).nextRefreshDue = some (start +
      ((s.controllers channel).raised.length + 1) * cfg.controller.refreshInterval)
  rotation : cfg.controller.refreshPolicy = .perBank →
    (s.controllers channel).raisedBanks =
      bankVisits cfg.banksPerChannel (s.controllers channel).raised.length
  /-- No instant is raised before its time. -/
  reached : ∀ due ∈ (s.controllers channel).raised, due ≤ s.now
  /-- No admission comes after an instant that is still to be raised. -/
  admitted : ∀ at_ ∈ admissions s.trace channel,
    ∀ due, (s.controllers channel).nextRefreshDue = some due → at_ < due
  armed : (s.controllers channel).outstandingAccesses ≠ 0 →
    ∃ due, (s.controllers channel).nextRefreshDue = some due ∧
      ∃ e ∈ s.scheduler.events, e.time = due ∧ e.callback = .refreshDue channel due

/-- Every due instant a channel has processed is a refresh issued or a refresh pending. -/
def RefreshesKept (cfg : HbmConfig) (s : HbmSystem) (channel : Nat) : Prop :=
  (s.controllers channel).raised.length =
    (s.stats.channels channel).refreshesIssued cfg.controller.refreshPolicy +
      (s.controllers channel).refreshesPending cfg.controller.refreshPolicy

section

variable {cfg : HbmConfig} {s : HbmSystem} {d : Debts} {channel : Nat}

/-! ### Cadence -/

theorem mem_dueInstants {start interval count due : Nat} :
    due ∈ dueInstants start interval count ↔
      ∃ k, 1 ≤ k ∧ k ≤ count ∧ due = start + k * interval := by
  induction count with
  | zero =>
      simp only [dueInstants, List.not_mem_nil, false_iff]
      rintro ⟨k, some, none, -⟩
      omega
  | succ count ih =>
      rw [dueInstants, List.mem_cons, ih]
      constructor
      · rintro (rfl | ⟨k, some, le, rfl⟩)
        · exact ⟨count + 1, by omega, Nat.le_refl _, rfl⟩
        · exact ⟨k, some, by omega, rfl⟩
      · rintro ⟨k, some, le, rfl⟩
        rcases Nat.lt_or_eq_of_le le with lt | rfl
        · exact .inr ⟨k, some, by omega, rfl⟩
        · exact .inl rfl

/-- The next due instant is at most an interval ahead. -/
theorem HbmSystem.Run.next_le {p : HbmSystem × Debts} (checked : cfg.Checked) (run : Run cfg p)
    (channel : Nat) : ∀ due, (p.1.controllers channel).nextRefreshDue = some due →
      due ≤ p.1.now + cfg.controller.refreshInterval := by
  refine (run.channel checked channel (P := fun now _ t => ∀ due,
    t.ctl.nextRefreshDue = some due → due ≤ now + cfg.controller.refreshInterval)
    (fun _ => nofun) (fun later _ ih due hdue => ?_) fun {now _ u t} _ ih beat => ?_).2
  · exact Nat.le_trans (ih due hdue) (Nat.add_le_add_right later _)
  · have kept : t.ctl.nextRefreshDue = u.ctl.nextRefreshDue → ∀ due,
        t.ctl.nextRefreshDue = some due → due ≤ now + cfg.controller.refreshInterval :=
      fun same due hdue => ih due (same ▸ hdue)
    cases beat with
    | step step =>
        cases step with
        | retouch touched => exact kept (by rw [touched.ctl])
        | raise due =>
            refine kept ?_
            show (u.ctl.raise (cfg.channelConfig channel) due).nextRefreshDue = _
            rw [HbmController.raise_frame]
        | advanceDue base base_le =>
            intro due hdue
            obtain rfl : SimTime.add base cfg.controller.refreshInterval = due :=
              Option.some.inj hdue
            exact Nat.le_trans (Nat.mod_le _ _) (Nat.add_le_add_right base_le _)
        | maintain step => exact kept (by rw [step.frame])
        | row step => exact kept (by rw [step.frame])
    | data step => exact kept (by rw [step.frame])
    | lose step => exact kept (by rw [step.frame])
    | aside aside =>
        refine kept ?_
        generalize t.ctl = c at aside
        cases aside <;> rfl

/-- An open access has been admitted on its channel. -/
theorem admissions_of_open {trace : List Observation} {o : OpenAccess}
    (opened : o ∈ openAccesses trace) : admissions trace o.channel ≠ [] := by
  induction trace with
  | nil => cases opened
  | cons first rest ih =>
      have earlier : o ∈ openAccesses rest → admissions (first :: rest) o.channel ≠ [] := by
        intro opened
        cases admitted : first.admittedAt o.channel with
        | none =>
            unfold admissions
            rw [List.filterMap_cons_none admitted]
            exact ih opened
        | some at_ =>
            unfold admissions
            rw [List.filterMap_cons_some admitted]
            exact List.cons_ne_nil _ _
      cases first with
      | admitted ticket channel access at_ =>
          rcases List.mem_cons.mp opened with rfl | opened
          · have admitted : (Observation.admitted ticket channel access at_).admittedAt channel =
              some at_ := if_pos rfl
            unfold admissions
            rw [List.filterMap_cons_some admitted]
            exact List.cons_ne_nil _ _
          · exact earlier opened
      | finished => exact earlier (List.mem_of_mem_erase opened)
      | _ => exact earlier opened

/-- A channel with outstanding accesses has admitted one. -/
theorem admissions_of_outstanding (balanced : Balanced s d)
    (busy : (s.controllers channel).outstandingAccesses ≠ 0) :
    admissions s.trace channel ≠ [] := by
  rw [balanced.outstanding] at busy
  obtain ⟨l, mem⟩ := List.exists_mem_of_ne_nil _ (mt List.eq_nil_iff_length_eq_zero.mp busy)
  obtain ⟨ticket, opened⟩ := mem_openOn.mp
    ((balanced.opened channel).mem_iff.mp (List.mem_append_left _ mem))
  exact admissions_of_open opened

/-- A settled point of a run keeps the cadence. -/
theorem cadence_of_settled (checked : cfg.Checked) (on : cfg.controller.refreshInterval ≠ 0)
    (run : Run cfg (s, d)) (alive : d.escaped = false) (settled : d.Settled)
    (fits : ¬ Overflowed cfg s) (channel : Nat) : RefreshCadence cfg s channel := by
  have lives : ¬ d.escaped = true := by simp [alive]
  obtain ⟨-, beating⟩ := ((run.inStep checked on).resolve_left lives).resolve_left fits
  have armed : Armed s d := (run.punctual.resolve_left lives).resolve_left fits
  have uncharged : ¬ d.Charged channel := by
    rintro ⟨a, ha, -⟩
    rw [settled.slots] at ha
    cases ha
  have is : calmed s d channel = s.controllers channel := calmed_of_none settled.stirring
  have banks : (s.controllers channel).banks.length = cfg.banksPerChannel :=
    (run.sound checked channel).banks
  have event : ∀ due, (s.controllers channel).outstandingAccesses ≠ 0 →
      (s.controllers channel).nextRefreshDue = some due →
        ∃ e ∈ s.scheduler.events, e.time = due ∧ e.callback = .refreshDue channel due := by
    intro due busy next
    have claimed := armed.next channel busy (by simp [settled.rearm]) due next
    obtain ⟨e, he, callback⟩ := armed.events channel due claimed
    have stamped := run.scheduled.stamped e he
    rw [callback] at stamped
    exact ⟨e, he, stamped.1.symm, callback⟩
  -- nothing admitted yet, an admission under way, or a first admission that starts the cadence
  rcases beating channel with ⟨none, fresh, -⟩ | ⟨-, -, charged⟩ | @⟨start, first, cadenced, raised⟩
  · rw [is] at fresh
    constructor
    case unstarted => exact fun _ => ⟨fresh.raised, fresh.next⟩
    case raised =>
      intro start first
      rw [none] at first
      cases first
    case next =>
      intro start first
      rw [none] at first
      cases first
    case rotation =>
      intro _
      rw [fresh.raisedBanks, fresh.raised]
      rfl
    case reached =>
      intro due mem
      rw [fresh.raised] at mem
      cases mem
    case admitted =>
      intro at_ mem
      rw [none] at mem
      cases mem
    case armed =>
      intro busy
      exact absurd none (admissions_of_outstanding (run.accounted checked).balanced busy)
  · exact absurd charged uncharged
  · rw [is] at cadenced raised
    have same : ∀ start', (admissions s.trace channel).getLast? = some start' → start' = start :=
      fun start' first' => Option.some.inj (first'.symm.trans first)
    constructor
    case unstarted =>
      intro none
      rw [none] at first
      cases first
    case raised =>
      intro start' first'
      rw [same start' first']
      exact cadenced.raised
    case next =>
      intro start' first'
      rw [same start' first']
      exact cadenced.next
    case rotation =>
      intro policy
      rw [← banks]
      exact cadenced.raisedBanks policy
    case reached =>
      intro due mem
      rw [cadenced.raised] at mem
      obtain ⟨k, -, le, rfl⟩ := mem_dueInstants.mp mem
      have ahead := run.next_le checked channel _ cadenced.next
      have more := Nat.mul_le_mul_right cfg.controller.refreshInterval le
      have interval : (cfg.channelConfig channel).refreshInterval =
        cfg.controller.refreshInterval :=
        rfl
      have now : (s, d).1.now = s.now := rfl
      rw [interval, Nat.succ_mul, now] at ahead
      rw [interval]
      omega
    case admitted => exact raised.resolve_left uncharged
    case armed => exact fun busy => ⟨_, cadenced.next, event _ busy cadenced.next⟩

/-- In every run without overflow whose calls return, or whose device maps every
address, the refresh cadence of every channel is exact. -/
theorem refresh_cadence {escapes : HbmError → Prop} (reached : Reachable cfg escapes s)
    (on : cfg.controller.refreshInterval ≠ 0)
    (fits : (∀ e, escapes e → e.isOverflow = false) ∧ ¬ Overflowed cfg s)
    (whole : cfg.Covered ∨ ∀ e, ¬ escapes e) (channel : Nat) : RefreshCadence cfg s channel := by
  obtain ⟨valid, -, d, point, excuse⟩ := reached.point
  have alive : ¬ d.escaped = true := by
    intro lost
    obtain ⟨e, escaped, overflow | passed | uncovered⟩ := excuse lost
    · exact nomatch overflow.symm.trans (fits.1 e escaped)
    · exact fits.2 passed
    · exact whole.elim uncovered fun none => none e escaped
  obtain ⟨settled, -⟩ := point.settled.resolve_left alive
  exact cadence_of_settled valid.checked on point.run (by simpa using alive) settled fits.2 channel

/-- A channel that was idle for two due instants raises both at its next admission. -/
theorem refresh_cadence_idle : ∃ s, RefreshCadence { HbmConfig.hbm2_2000 with
    controller := { refreshInterval := 1000000, refreshPolicy := .perBank } } s 0 ∧
      (s.controllers 0).raised = [2000000, 1000000] := by
  obtain ⟨s, reached, final⟩ := exists_reachable
    ({ HbmConfig.hbm2_2000 with
      controller := { refreshInterval := 1000000, refreshPolicy := .perBank } })
    NoEscape
    (submit (.read 1 0 32) :: dispatches 8 ++ [.advance 2500000, submit (.read 2 64 32)])
    (fun s => s.inTime { HbmConfig.hbm2_2000 with
        controller := { refreshInterval := 1000000, refreshPolicy := .perBank } } &&
      decide ((s.controllers 0).raised = [2000000, 1000000]))
    (by decide) (by decide) (by decide +kernel)
  obtain ⟨fits, raised⟩ := Bool.and_eq_true _ _ |>.mp final
  exact ⟨s, refresh_cadence reached (by decide) ⟨nofun, not_overflowed_of_inTime fits⟩
    (.inr fun _ escaped => escaped) 0, of_decide_eq_true raised⟩

/-- On a device that does not map every address the second piece of a submission can
throw when the first is admitted already: the channel is left with outstanding accesses
and without a refresh event, whatever events follow. -/
theorem refresh_event_missing :
    ¬ ∀ (cfg : HbmConfig) (s : HbmSystem) (channel : Nat),
      Reachable cfg (·.isOverflow = false) s → cfg.controller.refreshInterval ≠ 0 →
        ¬ Overflowed cfg s → RefreshCadence cfg s channel := by
  intro claim
  obtain ⟨s, reached, final⟩ := exists_reachable_catching
    (.shortRows { refreshInterval := 1000000 }) ((·.isOverflow = false))
    (fun e => !e.isOverflow)
    ([submit (.read 1 32672 128), .call (.scheduleAt 5 0), .dispatch []])
    (fun s => s.inTime (.shortRows { refreshInterval := 1000000 }) &&
      (decide ((s.controllers 0).outstandingAccesses ≠ 0) && s.scheduler.events.isEmpty))
    (by decide) (by decide) (by simp) (by decide +kernel)
  simp only [Bool.and_eq_true, decide_eq_true_eq, List.isEmpty_iff] at final
  obtain ⟨fits, busy, quiet⟩ := final
  obtain ⟨due, -, e, he, -⟩ :=
    (claim _ s 0 reached (by decide) (not_overflowed_of_inTime fits)).armed busy
  rw [quiet] at he
  cases he

/-! ### Obligations -/

/-- The refreshes of a channel are kept if and only if no obligation has been raised onto
a flag that was still set. -/
theorem refreshes_kept {escapes : HbmError → Prop} (reached : Reachable cfg escapes s)
    (channel : Nat) :
    RefreshesKept cfg s channel ↔ (s.controllers channel).overlapped = 0 := by
  obtain ⟨valid, -, d, point, -⟩ := reached.point
  have obliged := point.run.obliged valid.checked channel
  have law : (s.controllers channel).raised.length =
      (s.stats.channels channel).refreshesIssued cfg.controller.refreshPolicy +
        (s.controllers channel).refreshesPending cfg.controller.refreshPolicy +
          (s.controllers channel).overlapped := obliged.law
  unfold RefreshesKept
  omega

/-- A refresh of a busy channel is kept: it is issued once the open row is closed. -/
theorem refreshes_kept_busy :
    ∃ s, RefreshesKept { HbmConfig.hbm2_2000 with controller := { refreshInterval := 1000000 } } s 0 ∧
      (s.controllers 0).raised = [1000000] ∧ (s.stats.channels 0).refreshes = 1 := by
  obtain ⟨s, reached, final⟩ := exists_reachable
    ({ HbmConfig.hbm2_2000 with controller := { refreshInterval := 1000000 } })
    NoEscape
    (submit (.read 1 0 32) :: dispatches 5 ++
      [.advance 990000, submit (.read 2 65536 32)] ++ dispatches 6)
    (fun s => decide ((s.controllers 0).overlapped = 0) &&
      (decide ((s.controllers 0).raised = [1000000]) &&
        decide ((s.stats.channels 0).refreshes = 1)))
    (by decide) (by decide) (by decide +kernel)
  simp only [Bool.and_eq_true, decide_eq_true_eq] at final
  obtain ⟨none, raised, issued⟩ := final
  exact ⟨s, (refreshes_kept reached 0).mpr none, raised, issued⟩

/-- While an open row cannot be closed yet, due instants pass whose flag is set already:
their refreshes are never issued. -/
theorem refreshes_overlap :
    ¬ ∀ (cfg : HbmConfig) (s : HbmSystem) (channel : Nat), Reachable cfg NoEscape s →
      cfg.controller.refreshInterval ≠ 0 → RefreshesKept cfg s channel := by
  intro claim
  obtain ⟨s, reached, final⟩ := exists_reachable
    { device := { DeviceSpec.custom with customTiming := { tRfc := 10000 } }
      controller := { refreshInterval := 10000 } }
    NoEscape (submit (.read 1 0 64) :: dispatches 8)
    (fun s => decide ((s.controllers 0).raised = [30000, 20000, 10000]) &&
      (decide ((s.stats.channels 0).refreshes = 0) && (s.controllers 0).refreshPending))
    (by decide) (by decide) (by decide +kernel)
  simp only [Bool.and_eq_true, decide_eq_true_eq] at final
  obtain ⟨raised, issued, pending⟩ := final
  have kept : (s.controllers 0).raised.length =
      (s.stats.channels 0).refreshes + (s.controllers 0).refreshPending.toNat :=
    claim _ s 0 reached (by decide)
  rw [raised, issued, pending] at kept
  cases kept

end

end HbmSim
