import HbmSim.Guarantees.Precharge
import HbmSim.Guarantees.Timing
import HbmSim.System.Ordering

/-!
The timing of a standard's device over whole runs.

An all-bank command is checked at every bank and recorded at the first. The bounds of the
tables hold of every bank all the same: an all-bank precharge is followed by its refresh,
and what comes after the refresh comes late enough for the precharge.
-/

namespace HbmSim

open HbmSim.Lib HbmSystem HbmController

/-- The addresses of the banks of a channel. -/
def HbmConfig.bankAddresses (cfg : HbmConfig) (channel : Nat) : List HbmAddress :=
  (List.range (cfg.channelConfig channel).bankCount).filterMap fun i =>
    (cfg.mapper.bankAddress (u32 ((cfg.channelConfig channel).firstFlatBank + i))).toOption

/-- The addresses a command occurs at: its own, and for an all-bank command every bank's. -/
def RecordedCommand.sites (cfg : HbmConfig) (channel : Nat) (r : RecordedCommand) :
    List HbmAddress :=
  if r.command.isAllBank then r.address :: cfg.bankAddresses channel else [r.address]

/-- The issue times of the commands that count as `k` and occur on a resource, latest first. -/
def occurrences (cfg : HbmConfig) (channel : Nat) (recorded : List RecordedCommand)
    (scope : TimingScope) (index : Nat) (k : HbmCommand) : List Nat :=
  (recorded.filter fun r => timingCommand r.command = k ∧
    ∃ site ∈ r.sites cfg channel, site.scopeIndex scope = index).map (·.issuedAt)

/-- The command occurs on a resource. -/
def RecordedCommand.OccursOn (cfg : HbmConfig) (channel : Nat) (r : RecordedCommand)
    (scope : TimingScope) (index : Nat) : Prop :=
  ∃ site ∈ r.sites cfg channel, site.scopeIndex scope = index

instance (cfg : HbmConfig) (channel : Nat) (r : RecordedCommand) (scope : TimingScope)
    (index : Nat) : Decidable (r.OccursOn cfg channel scope index) :=
  inferInstanceAs (Decidable (∃ site ∈ r.sites cfg channel, site.scopeIndex scope = index))

/-- On one of the resources of `r` the row looks back at `e`: since then there have been as many
commands that count as its preceding one as it leaves out. -/
structure LooksBack (cfg : HbmConfig) (channel : Nat) (row : TimingConstraint) (index : Nat)
    (r : RecordedCommand) (since : List RecordedCommand) (e : RecordedCommand) : Prop where
  following : row.following = timingCommand r.command
  here : r.OccursOn cfg channel row.scope index
  preceding : timingCommand e.command = row.preceding
  there : e.OccursOn cfg channel row.scope index
  since : since.countP (fun m => timingCommand m.command = row.preceding ∧
    m.OccursOn cfg channel row.scope index) + 1 = row.distance

/-- The commands of a channel are legal: they are issued in order, each as late as the rows of the
constraint table that look back from it ask for, and no five ACTs of a pseudo-channel come within
`t_faw`. -/
structure CommandsLegal (cfg : HbmConfig) (channel : Nat) (recorded : List RecordedCommand) :
    Prop where
  ordered : recorded.Pairwise fun r earlier => earlier.issuedAt ≤ r.issuedAt
  spaced : ∀ later r since e before, recorded = later ++ r :: (since ++ e :: before) →
    ∀ row ∈ cfg.device.timing.constraints, ∀ index, LooksBack cfg channel row index r since e →
      e.issuedAt + row.delay ≤ r.issuedAt
  five_acts : ∀ pseudoChannel i first fifth,
    (timesOn recorded .pseudoChannel pseudoChannel .act)[i]? = some fifth →
      (timesOn recorded .pseudoChannel pseudoChannel .act)[i + 4]? = some first →
        first + cfg.device.timing.tFaw ≤ fifth

/-- The record of a channel keeps the constraint table of its device: every command, at every
address it occurs at, waits for the commands that occurred on its resources. -/
structure TimingLegal (cfg : HbmConfig) (channel : Nat) (recorded : List RecordedCommand) :
    Prop where
  ordered : InOrder recorded
  spaced : ∀ r earlier, (r :: earlier) <:+ recorded → ∀ site ∈ r.sites cfg channel,
    ∀ row ∈ cfg.device.timing.constraints, row.following = timingCommand r.command →
      ∀ at_, (occurrences cfg channel earlier row.scope (site.scopeIndex row.scope)
          row.preceding)[row.distance - 1]? = some at_ → at_ + row.delay ≤ r.issuedAt

section

variable {cfg : HbmConfig} {s : HbmSystem} {channel bank : Nat}
  {recorded earlier later before : List RecordedCommand} {r e : RecordedCommand}

/-! ### Sites -/

theorem mem_sites {site : HbmAddress} : site ∈ r.sites cfg channel ↔
    site = r.address ∨ r.command.isAllBank = true ∧ ∃ i < (cfg.channelConfig channel).bankCount,
      cfg.mapper.bankAddress (u32 ((cfg.channelConfig channel).firstFlatBank + i)) = .ok site := by
  have named : site ∈ cfg.bankAddresses channel ↔ ∃ i < (cfg.channelConfig channel).bankCount,
      cfg.mapper.bankAddress (u32 ((cfg.channelConfig channel).firstFlatBank + i)) = .ok site := by
    unfold HbmConfig.bankAddresses
    rw [List.mem_filterMap]
    refine exists_congr fun i => and_congr List.mem_range ?_
    cases cfg.mapper.bankAddress (u32 ((cfg.channelConfig channel).firstFlatBank + i)) <;>
      simp [Except.toOption]
  unfold RecordedCommand.sites
  cases r.command.isAllBank with
  | false => simp
  | true => simp [named]

theorem mem_occurrences {scope : TimingScope} {index : Nat} {k : HbmCommand} {at_ : Nat} :
    at_ ∈ occurrences cfg channel recorded scope index k ↔ ∃ e ∈ recorded,
      timingCommand e.command = k ∧ (∃ site ∈ e.sites cfg channel, site.scopeIndex scope = index) ∧
        e.issuedAt = at_ := by
  simp [occurrences, and_assoc]

/-- The earliest time of an all-bank command of a standard is that of every bank. -/
theorem checksAllBanks_of_allBank {config : HbmControllerConfig} {standard : HbmStandard}
    (hs : config.standard = some standard) {k : HbmCommand} (all : k = .preAll ∨
      k = .refreshAllBank) :
    checksAllBanks config k = .ok true := by
  unfold checksAllBanks
  rw [hs]
  rcases all with rfl | rfl <;> cases standard <;> rfl

/-- A command was checked at the addresses it occurs at. -/
theorem site_of_mem {standard : HbmStandard} (hs : cfg.device.standard = some standard)
    (known : r.command ≠ .rfmAllBank) {site : HbmAddress} (mem : site ∈ r.sites cfg channel) :
    Site (cfg.channelConfig channel) cfg.mapper r site := by
  rcases mem_sites.mp mem with rfl | ⟨all, i, hi, address⟩
  · exact .own
  · refine .bank (checksAllBanks_of_allBank hs ?_) hi address
    cases kind : r.command <;> rw [kind] at all known <;>
      first | exact .inl rfl | exact .inr rfl | exact absurd rfl known | cases all

/-- The addresses of a bank name the same resources. -/
theorem InPlace.same_bank (fits : cfg.device.organization.topology.Fits)
    (h : InPlace (cfg.channelConfig channel) cfg.mapper r earlier)
    (h' : InPlace (cfg.channelConfig channel) cfg.mapper e before) (same : r.bank = e.bank)
    (scope : TimingScope) : r.address.scopeIndex scope = e.address.scopeIndex scope := by
  obtain ⟨a, ha, named⟩ := h.site fits
  obtain ⟨a', ha', named'⟩ := h'.site fits
  rw [same] at ha
  obtain rfl := Except.ok.inj (ha.symm.trans ha')
  rw [← named scope, named' scope]

/-- A command occurs on its channel only. -/
theorem InPlace.site_flatChannel (fits : cfg.device.organization.topology.Fits)
    (hchannel : channel < cfg.channelCount)
    (h : InPlace (cfg.channelConfig channel) cfg.mapper r earlier) {site : HbmAddress}
    (mem : site ∈ r.sites cfg channel) : site.flatChannel = channel := by
  rcases mem_sites.mp mem with rfl | ⟨-, i, hi, address⟩
  · exact h.flatChannel fits hchannel
  · obtain ⟨banks, first, upto⟩ := HbmConfig.channelConfig_of_fits fits hchannel
    rw [banks] at hi
    obtain ⟨a, ha, here⟩ := HbmAddressMapper.bankAddress_of_channel (m := cfg.mapper) fits hchannel hi
    rw [first, u32_of_lt (upto i (Nat.le_of_lt hi))] at address
    obtain rfl := Except.ok.inj (ha.symm.trans address)
    exact here

/-! ### Rows of the tables -/

/-- The rows that follow an all-bank command look back one command: on the channel, or from
a precharge for less than a refresh takes. -/
theorem standard_rows (standard : HbmStandard) : ∀ row ∈ standard.timing.constraints,
    row.following ≠ .rfmAllBank ∧
      (row.preceding ∉ [.preBank, .refreshAllBank, .rfmAllBank] ∨ row.distance = 1 ∧
        (row.scope = .channel ∨ row.preceding = .preBank ∧ row.delay ≤ standard.timing.tRfc ∧
          row.following ∈ [.act, .preBank, .refreshPerBank, .refreshAllBank])) := by
  cases standard <;> decide

theorem isAllBank_of_timing {k p : HbmCommand} (counts : timingCommand k = p)
    (single : p ∉ [.preBank, .refreshAllBank, .rfmAllBank]) : k.isAllBank = false := by
  subst counts
  cases k <;> first | rfl | exact absurd (by decide) single

/-- Commands on one bank each occur where they are recorded. -/
theorem occurrences_single {scope : TimingScope} {index : Nat} {k : HbmCommand}
    (single : k ∉ [.preBank, .refreshAllBank, .rfmAllBank]) :
    occurrences cfg channel recorded scope index k = timesOn recorded scope index k := by
  unfold occurrences timesOn
  congr 1
  refine List.filter_congr fun e _ => ?_
  refine decide_eq_decide.mpr (and_congr_right fun counts => ?_)
  have one : e.sites cfg channel = [e.address] := by
    unfold RecordedCommand.sites
    rw [isAllBank_of_timing counts single]
    rfl
  simp [one]

/-- A row that looks back one command holds of every earlier command. -/
theorem Sequenced.all_kept (h : Sequenced cfg channel recorded) (ordered : InOrder recorded)
    (suffix : (r :: earlier) <:+ recorded) {site : HbmAddress}
    (at_site : Site (cfg.channelConfig channel) cfg.mapper r site) {row : TimingConstraint}
    (mem : row ∈ cfg.device.timing.constraints) (follows : row.following = timingCommand r.command)
    (near : row.distance = 1) (he : e ∈ earlier) (counts : timingCommand e.command = row.preceding)
    (shares : e.address.scopeIndex row.scope = site.scopeIndex row.scope) :
    e.issuedAt + row.delay ≤ r.issuedAt := by
  obtain ⟨preceding, following, scope, distance, delay⟩ := row
  dsimp only at follows near counts shares
  subst follows near
  have sorted := timesOn_sorted (ordered.sublist
    ((List.suffix_cons r earlier).trans suffix).sublist) scope (site.scopeIndex scope) preceding
  obtain ⟨latest, hlatest, le⟩ := le_of_head? sorted (mem_timesOn.mpr ⟨e, he, counts, shares, rfl⟩)
  have kept := h.row_kept suffix at_site mem latest hlatest
  exact Nat.le_trans (Nat.add_le_add_right le delay) kept

/-! ### After an all-bank precharge -/

/-- A bank open after an all-bank precharge has been activated since. -/
theorem activated_since (closes : e.command = .preAll)
    (opened : openRowAfter bank (later ++ e :: before) ≠ none) :
    ∃ x ∈ later, x.command = .act := by
  induction later with
  | nil =>
      refine absurd ?_ opened
      rw [List.nil_append, openRowAfter_cons, if_pos (.inl (by rw [closes]; rfl)), closes]
      rfl
  | cons y later ih =>
      by_cases act : y.command = .act
      · exact ⟨y, List.mem_cons_self, act⟩
      · have below : openRowAfter bank (later ++ e :: before) ≠ none := by
          intro none
          refine opened ?_
          rw [List.cons_append, openRowAfter_cons, none]
          split
          · cases kind : y.command <;> first | exact absurd kind act | rfl
          · rfl
        obtain ⟨x, hx, isAct⟩ := ih below
        exact ⟨x, List.mem_cons_of_mem _ hx, isAct⟩

/-- What comes after an ACT that follows an all-bank precharge comes after the refresh. -/
theorem Sequenced.reopened_refreshed (h : Sequenced cfg channel recorded)
    (apart : recorded.Pairwise (Apart (cfg.channelConfig channel))) (ordered : InOrder recorded)
    (fits : cfg.device.organization.topology.Fits) (hchannel : channel < cfg.channelCount)
    (suffix : (r :: (later ++ e :: before)) <:+ recorded) (closes : e.command = .preAll)
    (opened : openRowAfter bank (later ++ e :: before) ≠ none) :
    e.issuedAt + cfg.device.timing.tRfc ≤ r.issuedAt := by
  obtain ⟨x, hx, act⟩ := activated_since closes opened
  obtain ⟨after, between, rfl⟩ := List.append_of_mem hx
  have sub : (x :: (between ++ e :: before)) <:+ (after ++ x :: between) ++ e :: before :=
    ⟨after, by simp⟩
  have refreshed := h.act_refreshed apart fits hchannel
    ((sub.trans (List.suffix_cons r _)).trans suffix) act rfl closes
  have follows : x.issuedAt ≤ r.issuedAt :=
    (List.pairwise_cons.mp (ordered.sublist suffix.sublist)).1 x (sub.mem List.mem_cons_self)
  omega

/-- A command waits for an all-bank precharge of every bank. -/
theorem Sequenced.preAll_kept (h : Sequenced cfg channel recorded)
    (apart : recorded.Pairwise (Apart (cfg.channelConfig channel))) (ordered : InOrder recorded)
    (fits : cfg.device.organization.topology.Fits) (hchannel : channel < cfg.channelCount)
    (suffix : (r :: earlier) <:+ recorded) {row : TimingConstraint}
    (mem : row ∈ cfg.device.timing.constraints) (follows : row.following = timingCommand r.command)
    (near : row.distance = 1) (counts : row.preceding = .preBank)
    (short : row.delay ≤ cfg.device.timing.tRfc)
    (kinds : row.following ∈ [.act, .preBank, .refreshPerBank, .refreshAllBank])
    (he : e ∈ earlier) (closes : e.command = .preAll) : e.issuedAt + row.delay ≤ r.issuedAt := by
  have place := h.inPlace r earlier suffix
  obtain ⟨before', -, place'⟩ := (h.tail suffix).of_mem he
  obtain ⟨first, policy⟩ := place'.allBank (by rw [closes]; rfl)
  obtain ⟨later, before, rfl⟩ := List.append_of_mem he
  have reopened : ∀ {bank}, openRowAfter bank (later ++ e :: before) ≠ none →
      e.issuedAt + row.delay ≤ r.issuedAt := fun opened => by
    have refreshed := h.reopened_refreshed apart ordered fits hchannel suffix closes opened
    omega
  have rows := place.rows
  unfold RowLegal at rows
  rw [follows] at kinds
  cases kind : r.command <;> rw [kind] at kinds rows <;> first | exact absurd kinds (by decide) | skip
  case act =>
    have refreshed := h.act_refreshed apart fits hchannel suffix kind rfl closes
    omega
  case preBank => exact reopened rows
  case preAll =>
    obtain ⟨i, -, opened⟩ := rows
    exact reopened opened
  case refreshPerBank => exact nomatch policy.symm.trans (place.perBank kind)
  case refreshAllBank =>
    have same : r.bank = e.bank := (place.allBank (by rw [kind]; rfl)).1.trans first.symm
    refine h.all_kept ordered suffix .own mem follows near he ?_ ?_
    · rw [closes, counts]
      rfl
    · exact (place.same_bank fits place' same row.scope).symm

/-! ### The record -/

theorem Sequenced.timingLegal (h : Sequenced cfg channel recorded)
    (apart : recorded.Pairwise (Apart (cfg.channelConfig channel))) (ordered : InOrder recorded)
    {standard : HbmStandard} (hs : cfg.device.standard = some standard)
    (hchannel : channel < cfg.channelCount) : TimingLegal cfg channel recorded where
  ordered := ordered
  spaced r earlier suffix site hsite row mem follows at_ found := by
    have fits := HbmConfig.fits_of_standard hs
    have timing := timing_of_standard hs
    obtain ⟨known, shape⟩ := standard_rows standard row (timing ▸ mem)
    have at_site : Site (cfg.channelConfig channel) cfg.mapper r site := by
      refine site_of_mem hs (fun kind => known ?_) hsite
      rw [follows, kind]
      rfl
    rcases shape with single | ⟨near, looks⟩
    · rw [occurrences_single single] at found
      exact h.spaced r earlier suffix site at_site row mem follows at_ found
    obtain ⟨e, he, counts, ⟨site', hsite', shares⟩, rfl⟩ :=
      mem_occurrences.mp (List.mem_of_getElem? found)
    obtain ⟨before, -, place⟩ := (h.tail suffix).of_mem he
    rcases looks with scope | ⟨precharge, short, kinds⟩
    · -- the commands of a channel share its resource
      refine h.all_kept ordered suffix at_site mem follows near he counts ?_
      rw [← shares, scope]
      exact (place.flatChannel fits hchannel).trans (place.site_flatChannel fits hchannel hsite').symm
    · rcases timingCommand_eq_preBank.mp (counts.trans precharge) with kind | kind
      · have own : site' = e.address := by
          rcases mem_sites.mp hsite' with same | ⟨all, -⟩
          · exact same
          · rw [kind] at all
            cases all
        exact h.all_kept ordered suffix at_site mem follows near he counts (own ▸ shares)
      · exact h.preAll_kept apart ordered fits hchannel suffix mem follows near precharge
          (timing ▸ short) kinds he kind

/-- The record of a channel in a run without overflow. -/
theorem HbmSystem.Reachable.timingLegal (reached : Reachable cfg NoEscape s) (inTime : ¬ Overflowed cfg s)
    {standard : HbmStandard} (hs : cfg.device.standard = some standard)
    (hchannel : channel < cfg.channelCount) :
    TimingLegal cfg channel (s.controllers channel).recorded := by
  obtain ⟨checked, -, d, run, escaped, -⟩ := reached.settled
  have alive : ¬ (s.controllers channel).wrapped = true := fun wraps =>
    inTime (.inr ⟨channel, hchannel, wraps⟩)
  obtain ⟨apart, order⟩ := ((run.chronological checked channel).resolve_left alive).resolve_left
    (fun excused => excused.elim (fun lost => nomatch escaped.symm.trans lost) inTime)
  have sequenced := run.sequenced checked (fun none => nomatch none.symm.trans hs) channel
  exact sequenced.timingLegal apart.apart order.sorted hs hchannel

/-- In every run of a standard's device without overflow, every channel records its commands
in order and keeps every row of the constraint table, an all-bank command on every bank. -/
theorem timing_legal (reached : Reachable cfg NoEscape s) (inTime : ¬ Overflowed cfg s)
    {standard : HbmStandard} (hs : cfg.device.standard = some standard)
    (hchannel : channel < cfg.channelCount) :
    TimingLegal cfg channel (s.controllers channel).recorded :=
  reached.timingLegal inTime hs hchannel

/-- The commands of a run with one refresh that a request waits for and one of an idle
channel. -/
def refreshedCommands : List HbmCommand :=
  [.refreshAllBank, .preAll, .read, .act, .refreshAllBank, .preBank, .read, .act]

theorem timing_legal_refresh : ∃ s : HbmSystem,
    (s.controllers 0).recorded.map (·.command) = refreshedCommands ∧
      TimingLegal { HbmConfig.hbm2_2000 with controller := { refreshInterval := 1000000 } } 0
        (s.controllers 0).recorded := by
  obtain ⟨s, reached, final⟩ := exists_reachable
    { HbmConfig.hbm2_2000 with controller := { refreshInterval := 1000000 } } NoEscape
    (submit (.read 1 0 32) :: dispatches 5 ++ [.advance 990000, submit (.read 2 65536 32)] ++
      dispatches 12)
    (fun s => s.inTime { HbmConfig.hbm2_2000 with controller := { refreshInterval := 1000000 } } &&
      decide ((s.controllers 0).recorded.map (·.command) = refreshedCommands))
    (by decide) (by decide) (by decide +kernel)
  obtain ⟨inTime, commands⟩ := Bool.and_eq_true _ _ |>.mp final
  exact ⟨s, of_decide_eq_true commands,
    timing_legal reached (not_overflowed_of_inTime inTime) rfl (by decide)⟩

/-! ### The rows that look back -/

/-- Looking back over some commands of a kind finds the one before them. -/
theorem getElem?_filter_map {α β : Type} (p : α → Bool) (f : α → β) (since before : List α)
    {e : α} (here : p e = true) :
    (((since ++ e :: before).filter p).map f)[since.countP p]? = some (f e) := by
  rw [List.filter_append, List.filter_cons_of_pos here, List.map_append, List.map_cons,
    List.countP_eq_length_filter, List.getElem?_append_right (by simp)]
  simp

/-- The command that a row looks back at is the one among the occurrences that it names. -/
theorem LooksBack.occurs {row : TimingConstraint} {index : Nat} {since : List RecordedCommand}
    (looks : LooksBack cfg channel row index r since e) :
    (occurrences cfg channel (since ++ e :: before) row.scope index row.preceding)[row.distance - 1]? =
      some e.issuedAt := by
  have found := getElem?_filter_map
    (fun m => decide (timingCommand m.command = row.preceding ∧
      m.OccursOn cfg channel row.scope index)) (·.issuedAt) since before
    (decide_eq_true ⟨looks.preceding, looks.there⟩)
  have back : row.distance - 1 = since.countP fun m => timingCommand m.command = row.preceding ∧
      m.OccursOn cfg channel row.scope index := by
    have since := looks.since
    omega
  rw [back]
  exact found

/-- A time of an ACT is that of a recorded one, and the times before it are those of the ACTs
before it. -/
theorem exists_of_timesOn {scope : TimingScope} {index i at_ : Nat} {k : HbmCommand}
    (found : (timesOn recorded scope index k)[i]? = some at_) :
    ∃ r earlier, (r :: earlier) <:+ recorded ∧ timingCommand r.command = k ∧
      r.address.scopeIndex scope = index ∧ r.issuedAt = at_ ∧
        ∀ j, (timesOn recorded scope index k)[i + 1 + j]? =
          (timesOn earlier scope index k)[j]? := by
  induction recorded generalizing i with
  | nil => cases found
  | cons m recorded ih =>
      rw [timesOn_cons] at found ⊢
      by_cases here : timingCommand m.command = k ∧ m.address.scopeIndex scope = index
      · rw [if_pos here] at found ⊢
        cases i with
        | zero =>
            refine ⟨m, recorded, List.suffix_rfl, here.1, here.2, Option.some.inj found,
              fun j => ?_⟩
            rw [Nat.zero_add, Nat.add_comm, List.getElem?_cons_succ]
        | succ i =>
            obtain ⟨r, earlier, suffix, counts, on, time, rest⟩ := ih found
            refine ⟨r, earlier, suffix.trans (List.suffix_cons m _), counts, on, time, fun j => ?_⟩
            have shift : i + 1 + 1 + j = i + 1 + j + 1 := by omega
            rw [shift, List.getElem?_cons_succ]
            exact rest j
      · rw [if_neg here] at found ⊢
        obtain ⟨r, earlier, suffix, rest⟩ := ih found
        exact ⟨r, earlier, suffix.trans (List.suffix_cons m _), rest⟩

/-- The tables have a row for five ACTs. -/
theorem faw_row (standard : HbmStandard) :
    ⟨.act, .act, .pseudoChannel, 4, standard.timing.tFaw⟩ ∈ standard.timing.constraints := by
  cases standard <;> decide

theorem TimingLegal.commandsLegal (legal : TimingLegal cfg channel recorded)
    {standard : HbmStandard} (hs : cfg.device.standard = some standard) :
    CommandsLegal cfg channel recorded := by
  constructor
  case ordered => exact legal.ordered
  case spaced =>
    rintro later r since e before rfl row mem index looks
    obtain ⟨site, hsite, rfl⟩ := looks.here
    exact legal.spaced r (since ++ e :: before) (List.suffix_append _ _) site hsite row mem
      looks.following e.issuedAt looks.occurs
  case five_acts =>
    intro pseudoChannel i first fifth late early
    obtain ⟨r, earlier, suffix, counts, rfl, rfl, rest⟩ := exists_of_timesOn late
    have timing := timing_of_standard hs
    have single : r.address ∈ r.sites cfg channel := mem_sites.mpr (.inl rfl)
    refine legal.spaced r earlier suffix r.address single _ (timing ▸ faw_row standard) counts.symm
      first ?_
    have fourth := rest 3
    rw [show i + 1 + 3 = i + 4 from rfl, early] at fourth
    rw [occurrences_single (k := .act) (by decide)]
    exact fourth.symm

/-- In every run of a standard's device without overflow, the commands of every channel are legal
by the constraint table. -/
theorem commands_legal (reached : Reachable cfg NoEscape s) (inTime : ¬ Overflowed cfg s)
    {standard : HbmStandard} (hs : cfg.device.standard = some standard)
    (hchannel : channel < cfg.channelCount) :
    CommandsLegal cfg channel (s.controllers channel).recorded :=
  (reached.timingLegal inTime hs hchannel).commandsLegal hs

/-- Five reads of five banks, and a refresh of the channel that closes them. -/
theorem commands_legal_reads : ∃ s : HbmSystem,
    timesOn (s.controllers 0).recorded .pseudoChannel 0 .act = [16000, 12000, 8000, 4000, 0] ∧
      ((s.controllers 0).recorded.take 2).map (·.command) = [.refreshAllBank, .preAll] ∧
      CommandsLegal { HbmConfig.hbm2_2000 with controller := { refreshInterval := 1000000 } } 0
        (s.controllers 0).recorded := by
  obtain ⟨s, reached, final⟩ := exists_reachable
    { HbmConfig.hbm2_2000 with controller := { refreshInterval := 1000000 } } NoEscape
    ([submit (.read 1 0 32), submit (.read 2 64 32), submit (.read 3 128 32),
      submit (.read 4 192 32), submit (.read 5 256 32)] ++ dispatches 26)
    (fun s => s.inTime { HbmConfig.hbm2_2000 with controller := { refreshInterval := 1000000 } } &&
      decide (timesOn (s.controllers 0).recorded .pseudoChannel 0 .act =
        [16000, 12000, 8000, 4000, 0]) &&
      decide (((s.controllers 0).recorded.take 2).map (·.command) = [.refreshAllBank, .preAll]))
    (by decide) (by decide) (by decide +kernel)
  simp only [Bool.and_eq_true, decide_eq_true_eq] at final
  obtain ⟨⟨inTime, acts⟩, refresh⟩ := final
  exact ⟨s, acts, refresh,
    commands_legal reached (not_overflowed_of_inTime inTime) rfl (by decide)⟩

end

end HbmSim
