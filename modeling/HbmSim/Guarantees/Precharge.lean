import HbmSim.System.Actions
import HbmSim.System.BankTimes
import HbmSim.System.Replay
import HbmSim.System.Served

/-!
What waits for a precharge.

The timing history knows the commands that are issued. An auto-precharge is part of a data
command, an all-bank precharge of a custom device is stamped on one bank, and some tables
have no row from a precharge to a maintenance command; what waits for such a precharge
does so only where another row of the table makes it.
-/

namespace HbmSim

open HbmSim.Lib HbmSystem

/-! ### Auto-precharge -/

/-- How long after an auto-precharging command its bank could be precharged explicitly. -/
def HbmTimingSpec.recovery (t : HbmTimingSpec) (k : HbmCommand) : Nat :=
  if k = .readAuto then t.tRtp else t.tCwl + t.tBl + t.tWr

/-- `next` is the first ACT to the bank of `auto` after it. -/
structure NextAct (recorded earlier : List RecordedCommand) (auto next : RecordedCommand) :
    Prop where
  order : ∃ between, (next :: (between ++ auto :: earlier)) <:+ recorded ∧
    ∀ e ∈ between, ¬ (e.command = .act ∧ e.bank = auto.bank)
  act : next.command = .act
  bank : next.bank = auto.bank

/-- The ACT is no earlier than after an explicit precharge. -/
def Recovered (t : HbmTimingSpec) (auto next : RecordedCommand) : Prop :=
  auto.issuedAt + t.recovery auto.command + t.tRp ≤ next.issuedAt

/-- The row of the command had to stay open until its explicit precharge in any case. -/
def Prompt (t : HbmTimingSpec) (auto : RecordedCommand) (earlier : List RecordedCommand) : Prop :=
  ∀ a ∈ (bankTimes earlier auto.bank .act).head?,
    auto.issuedAt + t.recovery auto.command ≤ a + t.tRas

instance (t : HbmTimingSpec) (auto next : RecordedCommand) : Decidable (Recovered t auto next) :=
  inferInstanceAs (Decidable (_ ≤ _))

instance (t : HbmTimingSpec) (auto : RecordedCommand) (earlier : List RecordedCommand) :
    Decidable (Prompt t auto earlier) :=
  inferInstanceAs (Decidable (∀ a ∈ _, _))

/-! ### Maintenance -/

/-- Every maintenance command waits for the latest precharge of every bank it covers. -/
def MaintenanceRested (t : HbmTimingSpec) (recorded : List RecordedCommand) : Prop :=
  ∀ r earlier, (r :: earlier) <:+ recorded → r.command.isMaintenance = true →
    ∀ bank, r.covers bank → ∀ p ∈ (prechargeTimes earlier bank).head?, p + t.tRp ≤ r.issuedAt

/-- Why a maintenance command waits for a precharge of the bank at `p`, if it does. -/
inductive Sheltered (cfg : HbmConfig) (raised : List Nat) (r : RecordedCommand)
    (earlier : List RecordedCommand) (bank p : Nat) : Prop
  /-- The table makes the command wait for a precharge. -/
  | row {scope : TimingScope}
      (row : ⟨.preBank, r.command, scope, 1, cfg.device.timing.tRp⟩ ∈ cfg.device.timing.constraints)
  /-- The table makes the command wait for the bank's ACT, and the row was not open longer
  than it had to be. -/
  | cycle {a : Nat}
      (row : ⟨.act, r.command, .bank, 1, cfg.device.timing.tRc⟩ ∈ cfg.device.timing.constraints)
      (act : a ∈ (bankTimes earlier bank .act).head?) (short : p ≤ a + cfg.device.timing.tRas)
  /-- The bank has been activated again. -/
  | reopened {a : Nat} (act : a ∈ (bankTimes earlier bank .act).head?) (later : p ≤ a)
  /-- The precharge is older than the obligation the command works on. -/
  | due {d : Nat} (serves : r.command.servesRefresh = true)
      (due : dueAfter cfg.controller.refreshPolicy raised earlier = some d)
      (older : p + cfg.device.timing.tRp ≤ d)

/-! ### All-bank precharges of a custom device -/

/-- The latest precharge that covers a bank. -/
def latestPrecharge (recorded : List RecordedCommand) (bank : Nat) : Option RecordedCommand :=
  recorded.find? fun r => r.precharges bank

/-- Every all-bank precharge waits for the ACTs of all banks, and every ACT waits for the
precharges of its bank. -/
def AllBankRespected (t : HbmTimingSpec) (recorded : List RecordedCommand) : Prop :=
  ∀ r earlier, (r :: earlier) <:+ recorded →
    (r.command = .preAll → ∀ bank, ∀ a ∈ (bankTimes earlier bank .act).head?,
      a + t.tRas ≤ r.issuedAt) ∧
    (r.command = .act → ∀ e ∈ latestPrecharge earlier r.bank, e.issuedAt + t.tRp ≤ r.issuedAt)

/-- Why an all-bank precharge waits for the ACT of a bank at `a`, if it does: it waits for
the latest ACT of the first bank, and for the due instant of its refresh. -/
inductive Seasoned (cfg : HbmConfig) (raised : List Nat) (earlier : List RecordedCommand)
    (a : Nat) : Prop
  | first {latest : Nat} (act : latest ∈ (bankTimes earlier 0 .act).head?) (le : a ≤ latest)
  | due {d : Nat} (due : dueAfter cfg.controller.refreshPolicy raised earlier = some d)
      (older : a + cfg.device.timing.tRas ≤ d)

/-- Why an ACT waits for a precharge of its bank, if it does: the precharge is stamped on
the bank, or the refresh between them takes long enough. -/
inductive Stamped (cfg : HbmConfig) (r e : RecordedCommand) : Prop
  | own (single : e.command = .preBank)
  | first (bank : r.bank = 0)
  | refresh (fits : cfg.device.organization.topology.Fits)
      (long : cfg.device.timing.tRp ≤ cfg.device.timing.tCommand + cfg.device.timing.tRfc)

section

variable {cfg : HbmConfig} {escapes : HbmError → Prop} {s : HbmSystem} {channel bank : Nat}
  {recorded earlier : List RecordedCommand} {r auto next : RecordedCommand}

theorem timing_of_standard {standard : HbmStandard} (hs : cfg.device.standard = some standard) :
    cfg.device.timing = standard.timing := by
  unfold DeviceSpec.timing
  rw [hs]

/-- A bank with an open row has been activated. -/
theorem activated_of_open {row : Nat} (opened : openRowAfter bank recorded = some row) :
    ∃ a, (bankTimes recorded bank .act).head? = some a := by
  induction recorded with
  | nil => cases opened
  | cons r earlier ih =>
      rw [openRowAfter_cons] at opened
      by_cases here : r.command = .act ∧ r.bank = bank
      · refine ⟨r.issuedAt, ?_⟩
        unfold bankTimes
        rw [List.filter_cons_of_pos (by simp [timingCommand_eq_act, here])]
        rfl
      · have same : bankTimes (r :: earlier) bank .act = bankTimes earlier bank .act := by
          unfold bankTimes
          rw [List.filter_cons_of_neg (by simpa [timingCommand_eq_act] using here)]
        rw [same]
        split at opened
        · rename_i covers
          refine ih ?_
          unfold HbmCommand.rowAfter at opened
          have single : r.command = .act → False := by
            intro act
            refine here ⟨act, ?_⟩
            rcases covers with all | same
            · rw [act] at all
              cases all
            · exact same.symm
          cases kind : r.command <;> rw [kind] at opened single <;>
            first | exact (single rfl).elim | exact opened | cases opened
        · exact ih opened

/-- The cycle time of every standard is that of its row and its precharge. -/
theorem standard_tRc (standard : HbmStandard) :
    standard.timing.tRc = standard.timing.tRas + standard.timing.tRp := by
  cases standard <;> rfl

/-- The next ACT waits for the cycle time of the ACT before. -/
theorem NextAct.cycle (h : NextAct recorded earlier auto next)
    (sequenced : Sequenced cfg channel recorded) (isAuto : auto.command.isAuto = true) :
    ∀ a ∈ (bankTimes earlier auto.bank .act).head?, a + cfg.device.timing.tRc ≤ next.issuedAt := by
  obtain ⟨between, suffix, none⟩ := h.order
  have noAct : auto.command ≠ .act := by
    intro act
    rw [act] at isAuto
    cases isAuto
  have same : bankTimes (between ++ auto :: earlier) auto.bank .act =
      bankTimes earlier auto.bank .act := by
    unfold bankTimes
    rw [List.filter_append, List.filter_cons_of_neg (by simp [timingCommand_eq_act, noAct]),
      List.filter_eq_nil_iff.mpr fun e he => by
        simpa [timingCommand_eq_act] using none e he, List.nil_append]
  rw [← same, ← h.bank]
  refine sequenced.bank_kept suffix ?_
  rw [h.act]
  exact cfg.device.timing.common_rows.1

/-- In every run of a standard's device, the first ACT after a prompt auto-precharge is no
earlier than after an explicit precharge. -/
theorem autoPrecharge_recovered (reached : Reachable cfg escapes s) {standard : HbmStandard}
    (hs : cfg.device.standard = some standard)
    (h : NextAct (s.controllers channel).recorded earlier auto next)
    (isAuto : auto.command.isAuto = true) (prompt : Prompt cfg.device.timing auto earlier) :
    Recovered cfg.device.timing auto next := by
  obtain ⟨valid, -, d, point, -⟩ := reached.point
  have sequenced := point.run.sequenced valid.checked (fun none =>
    nomatch none.symm.trans hs) channel
  obtain ⟨between, suffix, -⟩ := h.order
  have legal := (sequenced.inPlace auto earlier
    ((List.suffix_append (next :: between) _).trans suffix)).rows
  obtain ⟨a, ha⟩ : ∃ a, (bankTimes earlier auto.bank .act).head? = some a := by
    unfold RowLegal at legal
    cases kind : auto.command <;> rw [kind] at legal isAuto <;> first
      | exact activated_of_open legal
      | cases isAuto
  have cycle := h.cycle sequenced isAuto a ha
  have covered := prompt a ha
  rw [timing_of_standard hs] at *
  rw [standard_tRc] at cycle
  unfold Recovered
  omega

theorem NextAct.adjacent (same : recorded = next :: auto :: earlier) (act : next.command = .act)
    (bank : next.bank = auto.bank) : NextAct recorded earlier auto next :=
  ⟨⟨[], same ▸ List.suffix_rfl, nofun⟩, act, bank⟩

/-- The last two commands are an auto-precharging one and the next ACT to its bank. -/
def reopened (recorded : List RecordedCommand) : Option (RecordedCommand × RecordedCommand) :=
  match recorded with
  | next :: auto :: _ =>
      if auto.command.isAuto = true ∧ next.command = .act ∧ next.bank = auto.bank then
        some (auto, next)
      else none
  | _ => none

theorem nextAct_of_reopened (h : reopened recorded = some (auto, next)) :
    ∃ earlier, recorded = next :: auto :: earlier ∧ NextAct recorded earlier auto next ∧
      auto.command.isAuto = true := by
  unfold reopened at h
  split at h
  · rename_i next' auto' earlier
    split at h
    · rename_i found
      obtain ⟨rfl, rfl⟩ := Prod.mk.inj (Option.some.inj h)
      exact ⟨earlier, rfl, .adjacent rfl found.2.1 found.2.2, found.1⟩
    · cases h
  · cases h

/-- Two reads of different rows of a bank, and between them one of another bank: the second
ACT waits for the cycle time of the first, and so for its auto-precharge. -/
theorem autoPrecharge_recovered_reads : ∃ s between auto next earlier,
    Reachable { HbmConfig.hbm2_2000 with controller := { rowPolicy := .closed } } NoEscape s ∧
      (s.controllers 0).recorded = next :: between :: auto :: earlier ∧
        between.bank ≠ auto.bank ∧ auto.issuedAt = 14000 ∧ next.issuedAt = 48000 ∧
          Prompt HbmStandard.hbm2.timing auto earlier ∧
            Recovered HbmStandard.hbm2.timing auto next := by
  obtain ⟨s, reached, final⟩ := exists_reachable
    { HbmConfig.hbm2_2000 with controller := { rowPolicy := .closed } } NoEscape
    ([submit (.read 1 0 32), submit (.read 2 256 32), submit (.read 3 65536 32)] ++ dispatches 12)
    (fun s => decide (commandLog (s.controllers 0).recorded =
      [(.act, 0, 48000), (.readAuto, 1, 18000), (.readAuto, 0, 14000), (.act, 1, 4000),
        (.act, 0, 0)] ∧
      (bankTimes ((s.controllers 0).recorded.drop 3) 0 .act).head? = some 0))
    (by decide) (by decide) (by decide +kernel)
  obtain ⟨logged, opened⟩ := of_decide_eq_true final
  obtain ⟨next, rest, order, first, logged⟩ := List.map_eq_cons_iff.mp logged
  obtain ⟨between, rest, rfl, second, logged⟩ := List.map_eq_cons_iff.mp logged
  obtain ⟨auto, earlier, rfl, third, -⟩ := List.map_eq_cons_iff.mp logged
  simp only [Prod.mk.injEq] at first second third
  have elsewhere : between.bank ≠ auto.bank := by
    rw [second.2.1, third.2.1]
    decide
  have follows : NextAct (s.controllers 0).recorded earlier auto next := by
    refine ⟨⟨[between], order ▸ List.suffix_rfl, fun e he here => ?_⟩, first.1,
      first.2.1.trans third.2.1.symm⟩
    obtain rfl := List.mem_singleton.mp he
    exact elsewhere here.2
  have prompt : Prompt HbmStandard.hbm2.timing auto earlier := by
    intro a ha
    rw [order] at opened
    rw [third.2.1] at ha
    obtain rfl : 0 = a := Option.some.inj (opened.symm.trans ha)
    rw [third.1, third.2.2]
    decide
  exact ⟨s, between, auto, next, earlier, reached, order, elsewhere, third.2.2, first.2.2, prompt,
    autoPrecharge_recovered reached rfl follows (by rw [third.1]; rfl) prompt⟩

/-- A write that drains first delays a read behind its ACT; its auto-precharge then comes
late, and the next ACT to the bank waits for the cycle time alone. -/
theorem autoPrecharge_early :
    ¬ ∀ (cfg : HbmConfig) (s : HbmSystem) (channel : Nat) (standard : HbmStandard)
        (earlier : List RecordedCommand) (auto next : RecordedCommand),
      Reachable cfg NoEscape s → cfg.device.standard = some standard →
        standard = .hbm2 ∨ standard = .hbm3 → cfg.controller.rowPolicy = .closed →
          NextAct (s.controllers channel).recorded earlier auto next →
            auto.command.isAuto = true → Recovered cfg.device.timing auto next := by
  intro claim
  obtain ⟨s, reached, final⟩ := exists_reachable
    ({ HbmConfig.hbm2_2000 with controller :=
      { rowPolicy := .closed, writeDrainHighWatermark := 1, writeDrainLowWatermark := 0 } })
    NoEscape
    (submit (.read 1 0 32) :: dispatches 1 ++
      [submit (.write 2 256 32), submit (.read 3 65536 32)] ++ dispatches 11)
    (fun s => (reopened (s.controllers 0).recorded).any fun (auto, next) =>
      decide (¬ Recovered HbmStandard.hbm2.timing auto next))
    (by decide) (by decide) (by decide +kernel)
  obtain ⟨⟨auto, next⟩, found, early⟩ := Option.any_eq_true _ _ |>.mp final
  obtain ⟨earlier, -, nextAct, isAuto⟩ := nextAct_of_reopened found
  exact of_decide_eq_true early
    (claim _ s 0 .hbm2 earlier auto next reached rfl (.inl rfl) rfl nextAct isAuto)

/-! ### Maintenance -/

/-- The rows of the tables from a precharge to a maintenance command. -/
theorem maintenance_row {t : HbmTimingSpec} {k : HbmCommand} {scope : TimingScope} {delay : Nat}
    (maintains : k.isMaintenance = true) (row : ⟨.preBank, k, scope, 1, delay⟩ ∈ t.constraints) :
    t.useExtendedHbmTiming = true ∧
      (k = .refreshPerBank ∧ scope = .bank ∨ k = .refreshAllBank ∧ scope = .pseudoChannel) := by
  unfold HbmTimingSpec.constraints at row
  split at row
  · rename_i extended
    refine ⟨extended, ?_⟩
    cases k <;> first
      | (cases maintains; done)
      | (simp [HbmTimingSpec.extendedConstraints] at row <;> simp [row.1])
  · cases k <;> first
      | (cases maintains; done)
      | simp [HbmTimingSpec.compactConstraints] at row

/-- A row of a table from the ACT of a bank to a maintenance command. -/
theorem cycle_row {t : HbmTimingSpec} {k : HbmCommand} {delay : Nat}
    (maintains : k.isMaintenance = true) (row : ⟨.act, k, .bank, 1, delay⟩ ∈ t.constraints) :
    k.isAllBank = false ∧ timingCommand k = k := by
  unfold HbmTimingSpec.constraints at row
  cases k <;> first
    | (cases maintains; done)
    | exact ⟨rfl, rfl⟩
    | (split at row <;>
        simp [HbmTimingSpec.extendedConstraints, HbmTimingSpec.compactConstraints] at row)

/-- No all-bank precharge is recorded under per-bank refresh. -/
theorem Sequenced.prechargeTimes_perBank (h : Sequenced cfg channel recorded)
    (perBank : cfg.controller.refreshPolicy.usesAllBankRefresh = false) (bank : Nat) :
    prechargeTimes recorded bank = bankTimes recorded bank .preBank := by
  unfold prechargeTimes bankTimes
  congr 1
  refine List.filter_congr fun e he => ?_
  obtain ⟨_, -, place⟩ := h.of_mem he
  have single : e.command.isAllBank = false := by
    by_contra all
    exact nomatch perBank.symm.trans (place.allBank (by simpa using all)).2
  simp [RecordedCommand.precharges, RecordedCommand.covers, single, eq_comm]

/-- An all-bank refresh under a table that has the row waits for every precharge. -/
theorem Sequenced.refresh_rested (h : Sequenced cfg channel recorded) {standard : HbmStandard}
    (hs : cfg.device.standard = some standard) (suffix : (r :: earlier) <:+ recorded)
    (refresh : r.command = .refreshAllBank)
    (extended : cfg.device.timing.useExtendedHbmTiming = true)
    (row : ⟨.preBank, r.command, .pseudoChannel, 1, cfg.device.timing.tRp⟩ ∈
      cfg.device.timing.constraints) :
    ∀ p ∈ prechargeTimes earlier bank, p + cfg.device.timing.tRp ≤ r.issuedAt := by
  intro p mem
  obtain ⟨e, he, closes, rfl⟩ := mem_prechargeTimes.mp mem
  have before := h.tail suffix
  obtain ⟨_, -, place⟩ := before.of_mem he
  obtain ⟨a, ha, same⟩ := place.site (HbmConfig.fits_of_standard hs)
  have site : Site (cfg.channelConfig channel) cfg.mapper r a := by
    refine .bank ?_ place.bank ha
    rw [refresh]
    have custom : (cfg.channelConfig channel).standard = some standard := hs
    unfold HbmController.checksAllBanks
    rw [custom]
    cases standard <;> rfl
  have precharges : ⟨.preBank, .preBank, .pseudoChannel, 1, cfg.device.timing.tPpd⟩ ∈
      cfg.device.timing.constraints := by
    unfold HbmTimingSpec.constraints
    rw [if_pos extended]
    simp [HbmTimingSpec.extendedConstraints]
  have listed : e.issuedAt ∈ timesOn earlier .pseudoChannel (a.scopeIndex .pseudoChannel) .preBank :=
    mem_timesOn.mpr ⟨e, he, closes.1, (same _).symm, rfl⟩
  obtain ⟨latest, hlatest, le⟩ := le_of_head? (before.sorted precharges) listed
  have row' : ⟨.preBank, timingCommand r.command, .pseudoChannel, 1, cfg.device.timing.tRp⟩ ∈
      cfg.device.timing.constraints := by
    rw [refresh] at row ⊢
    exact row
  have kept := h.row_kept suffix site row' latest hlatest
  omega

/-- The bus of a standard's row commands. -/
theorem rowBus {standard : HbmStandard} (hs : cfg.device.standard = some standard) {k : HbmCommand}
    (data : k.isData = false) : (cfg.channelConfig channel).commandBus k = .row := by
  have custom : (cfg.channelConfig channel).standard = some standard := hs
  unfold HbmControllerConfig.commandBus HbmStandard.commandBus
  rw [custom]
  simp [data]

/-- A bank that has been activated since its precharge was precharged in time. -/
theorem Sequenced.reopened_rested (h : Sequenced cfg channel recorded)
    (apart : recorded.Pairwise (Apart (cfg.channelConfig channel))) {standard : HbmStandard}
    (hs : cfg.device.standard = some standard) (hchannel : channel < cfg.channelCount)
    (suffix : (r :: earlier) <:+ recorded) (maintains : r.command.isMaintenance = true) {p a : Nat}
    (latest : p ∈ (prechargeTimes earlier bank).head?)
    (act : a ∈ (bankTimes earlier bank .act).head?) (later : p ≤ a) :
    p + cfg.device.timing.tRp ≤ r.issuedAt := by
  obtain ⟨since, e, before, order, none, closes, rfl⟩ := latest_precharge latest
  obtain ⟨x, hx, isAct, here, rfl⟩ := mem_bankTimes.mp (List.mem_of_mem_head? act)
  rw [timingCommand_eq_act] at isAct
  have fits := HbmConfig.fits_of_standard hs
  have data : r.command.isData = false := by
    cases kind : r.command <;> rw [kind] at maintains <;> first | rfl | cases maintains
  have waits : x.issuedAt + (cfg.channelConfig channel).commandDuration x.command ≤ r.issuedAt :=
    (List.pairwise_cons.mp (apart.sublist suffix.sublist)).1 x hx (by
      rw [isAct, rowBus hs rfl, rowBus hs data])
  have rest := ((List.suffix_cons r earlier).trans suffix)
  have closing := timingCommand_eq_preBank.mp closes.1
  rw [order] at hx
  rcases List.mem_append.mp hx with hx | hx
  · -- the ACT comes after the precharge
    obtain ⟨after, between, rfl⟩ := List.append_of_mem hx
    have order' : earlier = after ++ x :: (between ++ e :: before) := by
      rw [order, List.append_assoc, List.cons_append]
    have sub : (x :: (between ++ e :: before)) <:+ recorded :=
      List.IsSuffix.trans ⟨after, order'.symm⟩ rest
    have recovers : e.issuedAt + cfg.device.timing.tRp ≤ x.issuedAt := by
      rcases closing with single | all
      · refine h.act_rested sub isAct rfl (fun z hz found => ?_) closes.1 ?_
        · exact none z (List.mem_append_right _ (List.mem_cons_of_mem _ hz)) (here ▸ found)
        · rcases closes.2 with all | same
          · rw [single] at all
            cases all
          · exact same.symm.trans here.symm
      · have refreshed := h.act_refreshed apart fits hchannel sub isAct rfl all
        have enough : cfg.device.timing.tRp ≤ cfg.device.timing.tRfc := by
          rw [timing_of_standard hs]
          cases standard <;> decide
        omega
    omega
  · rcases List.mem_cons.mp hx with rfl | hx
    · rcases closing with kind | kind <;> exact nomatch isAct.symm.trans kind
    · -- the precharge comes after the ACT, and not at the same time
      have sub : (e :: before) <:+ recorded := List.IsSuffix.trans ⟨since, order.symm⟩ rest
      have pair : x.issuedAt + (cfg.channelConfig channel).commandDuration x.command ≤ e.issuedAt :=
        (List.pairwise_cons.mp (apart.sublist sub.sublist)).1 x hx (by
          rw [isAct, rowBus hs rfl]
          rcases closing with kind | kind <;> rw [kind, rowBus hs rfl])
      have positive : 0 < (cfg.channelConfig channel).commandDuration x.command := by
        have custom : (cfg.channelConfig channel).standard = some standard := hs
        unfold HbmControllerConfig.commandDuration
        rw [custom, isAct]
        dsimp only
        cases standard <;> decide
      omega

/-- In every run of a standard's device without overflow, a maintenance command waits for
the latest precharge of every bank it covers that it is sheltered from. -/
theorem maintenance_rested (reached : Reachable cfg escapes s) (inTime : ¬ Overflowed cfg s)
    {standard : HbmStandard} (hs : cfg.device.standard = some standard)
    (hchannel : channel < cfg.channelCount)
    (suffix : (r :: earlier) <:+ (s.controllers channel).recorded)
    (maintains : r.command.isMaintenance = true) (covers : r.covers bank) {p : Nat}
    (latest : p ∈ (prechargeTimes earlier bank).head?)
    (sheltered : Sheltered cfg (s.controllers channel).raised r earlier bank p) :
    p + cfg.device.timing.tRp ≤ r.issuedAt := by
  obtain ⟨valid, -, d, point, -⟩ := reached.point
  have alive : ¬ (s.controllers channel).wrapped = true := fun wraps =>
    inTime (.inr ⟨channel, hchannel, wraps⟩)
  have sequenced := point.run.sequenced valid.checked (fun none =>
    nomatch none.symm.trans hs) channel
  have apart := ((point.run.busesApart valid.checked channel).resolve_left alive).apart
  have here : r.command.isAllBank = false → r.bank = bank := fun single => by
    rcases covers with all | same
    · exact nomatch single.symm.trans all
    · exact same.symm
  cases sheltered with
  | row row =>
      obtain ⟨extended, ⟨kind, rfl⟩ | ⟨kind, rfl⟩⟩ := maintenance_row maintains row
      · have same := here (by rw [kind]; rfl)
        have policy := (sequenced.inPlace r earlier suffix).perBank kind
        rw [(sequenced.tail suffix).prechargeTimes_perBank policy, ← same] at latest
        refine sequenced.bank_kept suffix ?_ p latest
        rw [kind] at row ⊢
        exact row
      · exact sequenced.refresh_rested hs suffix kind extended row p (List.mem_of_mem_head? latest)
  | cycle row act short =>
      obtain ⟨single, self⟩ := cycle_row maintains row
      have kept := sequenced.bank_kept suffix (self.symm ▸ row) _ (here single ▸ act)
      rw [timing_of_standard hs] at *
      rw [standard_tRc] at kept
      omega
  | reopened act later =>
      exact sequenced.reopened_rested apart hs hchannel suffix maintains latest act later
  | due serves due older =>
      obtain ⟨d', due', le⟩ := ((point.run.served valid.checked channel).waited.resolve_left
        alive).2 r earlier suffix serves
      obtain rfl := Option.some.inj (due.symm.trans due')
      omega

/-- A maintenance command waits for the precharge before it because the table of HBM2 has the
row; and on HBM4 because the bank had to be open until then, because it has been activated
since, and because the precharge belongs to the refresh before. -/
theorem maintenance_rested_refresh :
    (∃ r : RecordedCommand, r.command = .refreshAllBank ∧ r.issuedAt = 1004000 ∧
      990000 + HbmStandard.hbm2.timing.tRp ≤ r.issuedAt) ∧
    (∃ r : RecordedCommand, r.command = .refreshPerBank ∧ r.issuedAt = 1035000 ∧
      1018500 + HbmStandard.hbm4.timing.tRp ≤ r.issuedAt) ∧
    (∃ r : RecordedCommand, r.command = .refreshAllBank ∧ r.issuedAt = 2000000 ∧
      1018500 + HbmStandard.hbm4.timing.tRp ≤ r.issuedAt) ∧
    ∃ r : RecordedCommand, r.command = .refreshAllBank ∧ r.issuedAt = 2000000 ∧
      1000000 + HbmStandard.hbm4.timing.tRp ≤ r.issuedAt := by
  refine ⟨?row, ?cycle, ?reopened, ?due⟩
  case row =>
    obtain ⟨s, r, earlier, reached, inTime, suffix, ⟨refresh, -, at_⟩, latest⟩ := exists_recorded
      { HbmConfig.hbm2_2000 with controller := { refreshInterval := 1000000 } }
      (submit (.read 1 0 32) :: dispatches 5 ++ [.advance 990000, submit (.read 2 65536 32)] ++
        dispatches 5) 0 .refreshAllBank 0 1004000
      (fun _ earlier => decide ((prechargeTimes earlier 0).head? = some 990000))
      (by decide) (by decide) (by decide +kernel)
    have row : ⟨.preBank, r.command, .pseudoChannel, 1, HbmStandard.hbm2.timing.tRp⟩ ∈
        HbmStandard.hbm2.timing.constraints := by
      rw [refresh]
      decide
    exact ⟨r, refresh, at_, maintenance_rested reached inTime rfl (by decide) suffix
      (by rw [refresh]; rfl) (.inl (by rw [refresh]; rfl)) (of_decide_eq_true latest) (.row row)⟩
  case cycle =>
    obtain ⟨s, r, earlier, reached, inTime, suffix, ⟨refresh, bank, at_⟩, times⟩ := exists_recorded
      { HbmConfig.hbm4_8000 with
        controller := { refreshInterval := 1000000, refreshPolicy := .perBank } }
      (submit (.read 1 134217728 32) :: dispatches 5 ++ [.advance 990000, submit (.read 2 0 32)] ++
        dispatches 8) 0 .refreshPerBank 0 1035000
      (fun _ earlier => decide ((prechargeTimes earlier 0).head? = some 1018500 ∧
        (bankTimes earlier 0 .act).head? = some 990000))
      (by decide) (by decide) (by decide +kernel)
    obtain ⟨latest, act⟩ := of_decide_eq_true times
    have row : ⟨.act, r.command, .bank, 1, HbmStandard.hbm4.timing.tRc⟩ ∈
        HbmStandard.hbm4.timing.constraints := by
      rw [refresh]
      decide
    exact ⟨r, refresh, at_, maintenance_rested reached inTime rfl (by decide) suffix
      (by rw [refresh]; rfl) (.inr bank.symm) latest (.cycle row act (by decide))⟩
  case reopened =>
    obtain ⟨s, r, earlier, reached, inTime, suffix, ⟨refresh, -, at_⟩, times⟩ := exists_recorded
      { HbmConfig.hbm4_8000 with controller := { refreshInterval := 1000000, rowPolicy := .closed } }
      (submit (.read 1 134217728 32) :: dispatches 5 ++ [.advance 990000, submit (.read 2 0 32)] ++
        dispatches 16) 0 .refreshAllBank 0 2000000
      (fun _ earlier => decide ((prechargeTimes earlier 0).head? = some 1018500 ∧
        (bankTimes earlier 0 .act).head? = some 1469000))
      (by decide) (by decide) (by decide +kernel)
    obtain ⟨latest, act⟩ := of_decide_eq_true times
    exact ⟨r, refresh, at_, maintenance_rested reached inTime rfl (by decide) suffix
      (by rw [refresh]; rfl) (.inl (by rw [refresh]; rfl)) latest (.reopened act (by decide))⟩
  case due =>
    obtain ⟨s, r, earlier, reached, inTime, suffix, ⟨refresh, -, at_⟩, times⟩ := exists_recorded
      { HbmConfig.hbm4_8000 with controller := { refreshInterval := 1000000 } }
      (submit (.read 1 0 32) :: dispatches 8 ++ [.advance 2500000, submit (.read 2 0 32)])
      0 .refreshAllBank 0 2000000
      (fun raised earlier => decide ((prechargeTimes earlier 0).head? = some 1000000 ∧
        dueAfter .allBank raised earlier = some 2000000))
      (by decide) (by decide) (by decide +kernel)
    obtain ⟨latest, due⟩ := of_decide_eq_true times
    exact ⟨r, refresh, at_, maintenance_rested reached inTime rfl (by decide) suffix
      (by rw [refresh]; rfl) (.inl (by rw [refresh]; rfl)) latest
      (.due (by rw [refresh]; rfl) due (by decide))⟩

/-- The tables of HBM4 have no row from a precharge to an all-bank refresh: the refresh
comes while the bank is still precharging. -/
theorem maintenance_unrested :
    ¬ ∀ (cfg : HbmConfig) (s : HbmSystem) (channel : Nat), Reachable cfg NoEscape s →
      cfg.device.standard.isSome = true → channel < cfg.channelCount →
        MaintenanceRested cfg.device.timing (s.controllers channel).recorded := by
  intro claim
  obtain ⟨s, r, earlier, reached, -, suffix, ⟨refresh, -, at_⟩, latest⟩ := exists_recorded
    { HbmConfig.hbm4_8000 with controller := { refreshInterval := 1000000 } }
    (submit (.read 1 0 32) :: dispatches 5 ++ [.advance 990000, submit (.read 2 65536 32)] ++
      dispatches 4) 0 .refreshAllBank 0 1000000
    (fun _ earlier => decide ((prechargeTimes earlier 0).head? = some 990000))
    (by decide) (by decide) (by decide +kernel)
  have waits := claim _ s 0 reached rfl (by decide) r earlier suffix (by rw [refresh]; rfl) 0
    (.inl (by rw [refresh]; rfl)) 990000 (of_decide_eq_true latest)
  rw [at_] at waits
  exact absurd waits (by decide)

/-! ### All-bank precharges of a custom device -/

theorem latestPrecharge_eq {e : RecordedCommand} (latest : e ∈ latestPrecharge earlier bank) :
    ∃ later before, earlier = later ++ e :: before ∧ (∀ z ∈ later, ¬ z.precharges bank) ∧
      e.precharges bank := by
  obtain ⟨here, later, before, order, none⟩ := List.find?_eq_some_iff_append.mp latest
  exact ⟨later, before, order, fun z hz => by simpa using none z hz, of_decide_eq_true here⟩

/-- In every run of a custom device with open rows and without overflow, an all-bank
precharge waits for the ACTs of the banks that are seasoned, and an ACT for a precharge
that is stamped for its bank. -/
theorem allBank_respected (reached : Reachable cfg escapes s) (inTime : ¬ Overflowed cfg s)
    (custom : cfg.device.standard = none) (opens : cfg.controller.rowPolicy = .open)
    (hchannel : channel < cfg.channelCount)
    (suffix : (r :: earlier) <:+ (s.controllers channel).recorded) :
    (r.command = .preAll → ∀ bank, ∀ a ∈ (bankTimes earlier bank .act).head?,
      Seasoned cfg (s.controllers channel).raised earlier a →
        a + cfg.device.timing.tRas ≤ r.issuedAt) ∧
    (r.command = .act → ∀ e ∈ latestPrecharge earlier r.bank, Stamped cfg r e →
      e.issuedAt + cfg.device.timing.tRp ≤ r.issuedAt) := by
  obtain ⟨valid, -, d, point, -⟩ := reached.point
  have alive : ¬ (s.controllers channel).wrapped = true := fun wraps =>
    inTime (.inr ⟨channel, hchannel, wraps⟩)
  have sequenced := point.run.sequenced valid.checked (fun _ => by rw [opens]; rfl) channel
  have apart := ((point.run.busesApart valid.checked channel).resolve_left alive).apart
  have place := sequenced.inPlace r earlier suffix
  constructor
  · intro closes bank a act seasoned
    cases seasoned with
    | first latest le =>
        have first : r.bank = 0 := (place.allBank (by rw [closes]; rfl)).1
        have row : ⟨.act, timingCommand r.command, .bank, 1, cfg.device.timing.tRas⟩ ∈
            cfg.device.timing.constraints := by
          rw [closes]
          exact cfg.device.timing.common_rows.2.2.1
        have kept := sequenced.bank_kept suffix row _ (first.symm ▸ latest)
        omega
    | due due older =>
        obtain ⟨d', due', le⟩ := ((point.run.served valid.checked channel).waited.resolve_left
          alive).2 r earlier suffix (by rw [closes]; rfl)
        obtain rfl := Option.some.inj (due.symm.trans due')
        omega
  · intro act e latest stamped
    obtain ⟨later, before, order, newest, closes⟩ := latestPrecharge_eq latest
    have single : e.bank = r.bank → e.issuedAt + cfg.device.timing.tRp ≤ r.issuedAt :=
      sequenced.act_rested suffix act order newest closes.1
    cases stamped with
    | own kind =>
        refine single ?_
        rcases closes.2 with all | same
        · rw [kind] at all
          cases all
        · exact same.symm
    | first first =>
        refine single ?_
        rcases closes.2 with all | same
        · obtain ⟨_, -, place'⟩ := (sequenced.tail suffix).of_mem (e := e) (by
            rw [order]
            exact List.mem_append_right _ List.mem_cons_self)
          rw [first]
          exact (place'.allBank all).1
        · exact same.symm
    | refresh fits long =>
        rcases timingCommand_eq_preBank.mp closes.1 with kind | kind
        · refine single ?_
          rcases closes.2 with all | same
          · rw [kind] at all
            cases all
          · exact same.symm
        · have refreshed := sequenced.act_refreshed apart fits hchannel suffix act order kind
          have duration : (cfg.channelConfig channel).commandDuration .preAll =
              cfg.device.timing.tCommand := by
            have same : (cfg.channelConfig channel).standard = none := custom
            unfold HbmControllerConfig.commandDuration
            rw [same]
            rfl
          omega

/-- Two reads of both banks, a refresh, two more reads of both, and one of another row of the
first. -/
def bothBanks : List Action :=
  submit (.read 1 134217728 64) :: dispatches 5 ++ [.advance 990000, submit (.read 2 0 64)] ++
    dispatches 6 ++ [submit (.read 3 134217728 64)] ++ dispatches 6 ++
      [.advance 1400000, submit (.read 4 8192 64)] ++ dispatches 6

/-- The refresh of a custom device closes the first bank in time, because it waits for it, and
the second one, which has been open for long. The ACTs after it wait for it, and so does one
after the precharge of its own bank. -/
theorem allBank_respected_first :
    (∃ r : RecordedCommand, r.command = .preAll ∧ r.issuedAt = 1023000 ∧
      990000 + DeviceSpec.custom.timing.tRas ≤ r.issuedAt ∧
        0 + DeviceSpec.custom.timing.tRas ≤ r.issuedAt) ∧
    (∃ r e : RecordedCommand, r.command = .act ∧ r.bank = 0 ∧ e.command = .preAll ∧
      e.issuedAt = 1023000 ∧ e.issuedAt + DeviceSpec.custom.timing.tRp ≤ r.issuedAt) ∧
    (∃ r e : RecordedCommand, r.command = .act ∧ r.bank = 1 ∧ e.command = .preAll ∧
      e.issuedAt = 1023000 ∧ e.issuedAt + DeviceSpec.custom.timing.tRp ≤ r.issuedAt) ∧
    ∃ r e : RecordedCommand, r.command = .act ∧ r.bank = 0 ∧ e.command = .preBank ∧
      e.issuedAt = 1316000 ∧ e.issuedAt + DeviceSpec.custom.timing.tRp ≤ r.issuedAt := by
  refine ⟨?closes, ?first, ?second, ?own⟩
  case closes =>
    obtain ⟨s, r, earlier, reached, inTime, suffix, ⟨closes, -, at_⟩, times⟩ := exists_recorded
      { controller := { refreshInterval := 1000000 } } bothBanks 7 .preAll 0 1023000
      (fun raised earlier => decide ((bankTimes earlier 0 .act).head? = some 990000 ∧
        (bankTimes earlier 1 .act).head? = some 0 ∧
          dueAfter .allBank raised earlier = some 1000000))
      (by decide) (by decide) (by decide +kernel)
    obtain ⟨first, second, due⟩ := of_decide_eq_true times
    have respected :=
      (allBank_respected reached inTime rfl rfl (by decide) suffix).1 closes
    exact ⟨r, closes, at_, respected 0 990000 first (.first first (Nat.le_refl _)),
      respected 1 0 second (.due due (by decide))⟩
  case first =>
    obtain ⟨s, r, earlier, reached, inTime, suffix, ⟨act, bank, -⟩, latest⟩ := exists_recorded
      { controller := { refreshInterval := 1000000 } } bothBanks 5 .act 0 1283000
      (fun _ earlier => (latestPrecharge earlier 0).any fun (e : RecordedCommand) =>
        decide (e.command = .preAll ∧ e.issuedAt = 1023000))
      (by decide) (by decide) (by decide +kernel)
    obtain ⟨e, he, all, at_⟩ := by simpa using Option.any_eq_true _ _ |>.mp latest
    have respected :=
      (allBank_respected reached inTime rfl rfl (by decide) suffix).2 act e (bank ▸ he)
    exact ⟨r, e, act, bank, all, at_, respected (.first bank)⟩
  case second =>
    obtain ⟨s, r, earlier, reached, inTime, suffix, ⟨act, bank, -⟩, latest⟩ := exists_recorded
      { controller := { refreshInterval := 1000000 } } bothBanks 4 .act 1 1283000
      (fun _ earlier => (latestPrecharge earlier 1).any fun (e : RecordedCommand) =>
        decide (e.command = .preAll ∧ e.issuedAt = 1023000))
      (by decide) (by decide) (by decide +kernel)
    obtain ⟨e, he, all, at_⟩ := by simpa using Option.any_eq_true _ _ |>.mp latest
    have respected :=
      (allBank_respected reached inTime rfl rfl (by decide) suffix).2 act e (bank ▸ he)
    exact ⟨r, e, act, bank, all, at_, respected (.refresh ⟨rfl, by decide⟩ (by decide))⟩
  case own =>
    obtain ⟨s, r, earlier, reached, inTime, suffix, ⟨act, bank, -⟩, latest⟩ := exists_recorded
      { controller := { refreshInterval := 1000000 } } bothBanks 0 .act 0 1330000
      (fun _ earlier => (latestPrecharge earlier 0).any fun (e : RecordedCommand) =>
        decide (e.command = .preBank ∧ e.issuedAt = 1316000))
      (by decide) (by decide) (by decide +kernel)
    obtain ⟨e, he, own, at_⟩ := by simpa using Option.any_eq_true _ _ |>.mp latest
    have respected :=
      (allBank_respected reached inTime rfl rfl (by decide) suffix).2 act e (bank ▸ he)
    exact ⟨r, e, act, bank, own, at_, respected (.own own)⟩

/-- The refresh of a custom device closes the second bank right after its ACT. -/
theorem allBank_violated :
    ¬ ∀ (cfg : HbmConfig) (s : HbmSystem) (channel : Nat), Reachable cfg NoEscape s →
      cfg.device.standard = none → cfg.controller.rowPolicy = .open →
        cfg.controller.refreshPolicy = .allBank → cfg.controller.refreshInterval ≠ 0 →
          channel < cfg.channelCount →
            AllBankRespected cfg.device.timing (s.controllers channel).recorded := by
  intro claim
  obtain ⟨s, r, earlier, reached, -, suffix, ⟨closes, -, at_⟩, act⟩ := exists_recorded
    { controller := { refreshInterval := 1000000 } }
    (submit (.read 1 0 64) :: dispatches 5 ++ [.advance 990000, submit (.read 2 134217728 64)] ++
      dispatches 4) 0 .preAll 0 1000000
    (fun _ earlier => decide ((bankTimes earlier 1 .act).head? = some 990000))
    (by decide) (by decide) (by decide +kernel)
  have respected := claim _ s 0 reached rfl rfl rfl (by decide) (by decide) r earlier suffix
  have waits := respected.1 closes 1 990000 (of_decide_eq_true act)
  rw [at_] at waits
  exact absurd waits (by decide)

end

end HbmSim
