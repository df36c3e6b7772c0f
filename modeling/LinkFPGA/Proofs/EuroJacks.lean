import Mathlib.Data.Nat.ModEq
import LinkFPGA.Firmware.SyncSources
import LinkFPGA.Gateware.Eurorack
import LinkFPGA.Library.Runs
import LinkFPGA.Proofs.EuroTempo

/-!
# From the Eurorack jacks to the Link state

`EurorackInput` counts and measures in every clock cycle, and `euro_tick` looks at its registers
now and then, one after the other. `jacks_are_followed` says what comes of the two together: a
follower asks the Link core for what the waveforms at the jacks say happened since the registers
were last read.

Read `asked` first.
-/

namespace LinkFPGA

open Clocked Runs

/-! ## The waveforms -/

/-- The level of a jack behind the synchroniser. -/
def jackLevel (pad : ℕ → Bool) (n : ℕ) : Bool := decide (3 ≤ n) && pad (n - 3)

/-- A rising edge. -/
def jackRises (pad : ℕ → Bool) (n : ℕ) : Bool := jackLevel pad n && !jackLevel pad (n - 1)

/-- An edge. -/
def jackChanges (pad : ℕ → Bool) (n : ℕ) : Bool := jackLevel pad n ^^ jackLevel pad (n - 1)

section
variable (inp : ℕ → EurorackIn)

def clkPad (n : ℕ) : Bool := (inp n).clkIn
def rstPad (n : ℕ) : Bool := (inp n).rstIn
def runPad (n : ℕ) : Bool := (inp n).runIn

/-- The host times of the rising edges of the clock before a cycle, the latest first. -/
def clkEdgeTimes : ℕ → List UInt64
  | 0 => []
  | n + 1 =>
      if jackRises (clkPad inp) n then (inp n).hostTime :: clkEdgeTimes n else clkEdgeTimes n

/-- The time between the last two rising edges. -/
def clkDistance (n : ℕ) : UInt32 :=
  match clkEdgeTimes inp n with
  | b :: a :: _ => (b - a).toUInt32
  | _ => 0

/-! ## The registers -/

namespace EurorackInput

/-- The core stays enabled, and its counter of the microseconds has started when the clock does. -/
structure Counting : Prop where
  enable : ∀ n, (inp n).enable = true
  softRst : ∀ n, (inp n).softRst = false
  started : ∀ n, jackRises (clkPad inp) n = true → (inp n).hostTime ≠ 0

/-- The registers in a cycle. -/
def core (n : ℕ) : EurorackInput := trace clk reset inp n

end EurorackInput

end

/-- The output of the synchroniser is three cycles late. -/
theorem multi_reg_third (pad : ℕ → Bool) (n : ℕ) :
    (trace MultiReg.clk ⟨false, false, false⟩ pad n).third = jackLevel pad n := by
  match n with
  | 0 | 1 | 2 => rfl
  | n + 3 =>
      unfold jackLevel
      rw [decide_eq_true (Nat.le_add_left 3 n), Bool.true_and]
      rfl

namespace EurorackInput

variable {inp : ℕ → EurorackIn}

/-- The synchronisers and the levels of the cycle before do not depend on the rest. -/
theorem clk_levels (s : EurorackInput) (i : EurorackIn) :
    ((s.clk i).clkS = s.clkS.clk i.clkIn ∧ (s.clk i).rstS = s.rstS.clk i.rstIn ∧
      (s.clk i).runS = s.runS.clk i.runIn) ∧
    (s.clk i).clkPrev = s.clkS.third ∧ (s.clk i).rstPrev = s.rstS.third ∧
      (s.clk i).runPrev = s.runS.third := by
  unfold clk runEdge rstEdge clkEdge
  cases i.softRst with
  | true => exact ⟨⟨rfl, rfl, rfl⟩, rfl, rfl, rfl⟩
  | false =>
      cases i.enable with
      | false => exact ⟨⟨rfl, rfl, rfl⟩, rfl, rfl, rfl⟩
      | true =>
          cases s.clkRises <;> cases s.rstRises <;> cases s.runChanges <;>
            exact ⟨⟨rfl, rfl, rfl⟩, rfl, rfl, rfl⟩

/-- What the edges of a cycle do to the counts and to the period meter of an enabled core. -/
theorem clk_edges {s : EurorackInput} {i : EurorackIn} (henable : i.enable = true)
    (hrst : i.softRst = false) :
    ((s.clk i).clkCount = (if s.clkRises then s.clkCount + 1 else s.clkCount) ∧
      (s.clk i).rstCount = (if s.rstRises then s.rstCount + 1 else s.rstCount) ∧
      (s.clk i).runCount = (if s.runChanges then s.runCount + 1 else s.runCount)) ∧
    ((s.clk i).lastClkTs, (s.clk i).clkPeriod) =
      if s.clkRises then (i.hostTime,
        if s.lastClkTs ≠ 0 then (i.hostTime - s.lastClkTs).toUInt32 else s.clkPeriod)
      else (s.lastClkTs, s.clkPeriod) := by
  unfold clk runEdge rstEdge clkEdge
  rw [henable, hrst]
  cases s.clkRises <;> cases s.rstRises <;> cases s.runChanges <;>
    exact ⟨⟨rfl, rfl, rfl⟩, rfl⟩

/-- The synchronisers delay what is at the pads. -/
theorem core_synchronisers (n : ℕ) :
    (core inp n).clkS = trace MultiReg.clk ⟨false, false, false⟩ (clkPad inp) n ∧
      (core inp n).rstS = trace MultiReg.clk ⟨false, false, false⟩ (rstPad inp) n ∧
      (core inp n).runS = trace MultiReg.clk ⟨false, false, false⟩ (runPad inp) n := by
  induction n with
  | zero => exact ⟨rfl, rfl, rfl⟩
  | succ n ih =>
      obtain ⟨⟨hclk, hrst, hrun⟩, -⟩ := clk_levels (core inp n) (inp n)
      obtain ⟨ihclk, ihrst, ihrun⟩ := ih
      show (clk (core inp n) (inp n)).clkS = _ ∧ (clk (core inp n) (inp n)).rstS = _ ∧
        (clk (core inp n) (inp n)).runS = _
      rw [hclk, hrst, hrun, ihclk, ihrst, ihrun]
      exact ⟨rfl, rfl, rfl⟩

/-- The levels of this cycle and of the one before. -/
theorem core_levels (n : ℕ) :
    ((core inp n).clkS.third = jackLevel (clkPad inp) n ∧
      (core inp n).rstS.third = jackLevel (rstPad inp) n ∧
      (core inp n).runS.third = jackLevel (runPad inp) n) ∧
    (core inp n).clkPrev = jackLevel (clkPad inp) (n - 1) ∧
      (core inp n).rstPrev = jackLevel (rstPad inp) (n - 1) ∧
      (core inp n).runPrev = jackLevel (runPad inp) (n - 1) := by
  have hlevels : ∀ n, (core inp n).clkS.third = jackLevel (clkPad inp) n ∧
      (core inp n).rstS.third = jackLevel (rstPad inp) n ∧
      (core inp n).runS.third = jackLevel (runPad inp) n := by
    intro n
    obtain ⟨hclk, hrst, hrun⟩ := @core_synchronisers inp n
    rw [hclk, hrst, hrun]
    exact ⟨multi_reg_third _ n, multi_reg_third _ n, multi_reg_third _ n⟩
  refine ⟨hlevels n, ?_⟩
  cases n with
  | zero => exact ⟨rfl, rfl, rfl⟩
  | succ n =>
      obtain ⟨-, hclk, hrst, hrun⟩ := clk_levels (core inp n) (inp n)
      obtain ⟨hclk', hrst', hrun'⟩ := hlevels n
      exact ⟨hclk.trans hclk', hrst.trans hrst', hrun.trans hrun'⟩

/-- The edges that the core sees. -/
theorem core_edges (n : ℕ) :
    (core inp n).clkRises = jackRises (clkPad inp) n ∧
      (core inp n).rstRises = jackRises (rstPad inp) n ∧
      (core inp n).runChanges = jackChanges (runPad inp) n := by
  obtain ⟨⟨hclk, hrst, hrun⟩, hclk', hrst', hrun'⟩ := @core_levels inp n
  unfold clkRises rstRises runChanges
  rw [hclk, hrst, hrun, hclk', hrst', hrun']
  exact ⟨rfl, rfl, rfl⟩

/-- The counts of an enabled core go up with the edges. -/
theorem core_counts_succ (h : Counting inp) (n : ℕ) :
    (core inp (n + 1)).clkCount =
        (if jackRises (clkPad inp) n then (core inp n).clkCount + 1 else (core inp n).clkCount) ∧
      (core inp (n + 1)).rstCount =
        (if jackRises (rstPad inp) n then (core inp n).rstCount + 1 else (core inp n).rstCount) ∧
      (core inp (n + 1)).runCount =
        (if jackChanges (runPad inp) n then (core inp n).runCount + 1
        else (core inp n).runCount) := by
  obtain ⟨hclk, hrst, hrun⟩ := @core_edges inp n
  rw [← hclk, ← hrst, ← hrun]
  exact (clk_edges (h.enable n) (h.softRst n)).1

/-- A register that goes up with the edges counts them. -/
theorem counter_eq {count : ℕ → UInt32} {edge : ℕ → Bool} (hzero : count 0 = 0)
    (hsucc : ∀ n, count (n + 1) = if edge n then count n + 1 else count n) (n : ℕ) :
    count n = .ofNat (ticks edge n) := by
  induction n with
  | zero => exact hzero
  | succ n ih =>
      rw [hsucc, ih]
      cases hedge : edge n with
      | true =>
          rw [ticks_succ_of_tick hedge, UInt32.ofNat_add]
          rfl
      | false => rw [ticks_succ_of_idle hedge, if_neg (by simp)]

/-- The counts. -/
theorem core_counts (h : Counting inp) (n : ℕ) :
    (core inp n).clkCount = .ofNat (ticks (jackRises (clkPad inp)) n) ∧
      (core inp n).rstCount = .ofNat (ticks (jackRises (rstPad inp)) n) ∧
      (core inp n).runCount = .ofNat (ticks (jackChanges (runPad inp)) n) :=
  ⟨@counter_eq (fun n => (core inp n).clkCount) _ rfl (fun n => (core_counts_succ h n).1) n,
    @counter_eq (fun n => (core inp n).rstCount) _ rfl (fun n => (core_counts_succ h n).2.1) n,
    @counter_eq (fun n => (core inp n).runCount) _ rfl (fun n => (core_counts_succ h n).2.2) n⟩

/-- An edge of the clock moves the period meter on. -/
theorem core_meter_succ (h : Counting inp) (n : ℕ) :
    ((core inp (n + 1)).lastClkTs, (core inp (n + 1)).clkPeriod) =
      if jackRises (clkPad inp) n then ((inp n).hostTime,
        if (core inp n).lastClkTs ≠ 0 then ((inp n).hostTime - (core inp n).lastClkTs).toUInt32
        else (core inp n).clkPeriod)
      else ((core inp n).lastClkTs, (core inp n).clkPeriod) := by
  rw [← (@core_edges inp n).1]
  exact (clk_edges (h.enable n) (h.softRst n)).2

/-- The time of no edge is 0. -/
theorem edge_times_nonzero (h : Counting inp) (n : ℕ) : ∀ t ∈ clkEdgeTimes inp n, t ≠ 0 := by
  induction n with
  | zero => exact fun t ht => absurd ht List.not_mem_nil
  | succ n ih =>
      unfold clkEdgeTimes
      split
      · rename_i hedge
        intro t ht
        rcases List.mem_cons.mp ht with rfl | ht
        · exact h.started n hedge
        · exact ih t ht
      · exact ih

/-- The period meter. -/
theorem core_meter (h : Counting inp) (n : ℕ) :
    (core inp n).lastClkTs = (clkEdgeTimes inp n).headD 0 ∧
      (core inp n).clkPeriod = clkDistance inp n := by
  induction n with
  | zero => exact ⟨rfl, rfl⟩
  | succ n ih =>
      have hnext := core_meter_succ h n
      obtain ⟨hlast, hperiod⟩ := ih
      cases hedge : jackRises (clkPad inp) n with
      | false =>
          have htimes : clkEdgeTimes inp (n + 1) = clkEdgeTimes inp n := by
            rw [clkEdgeTimes, hedge]
            rfl
          rw [hedge, if_neg (by simp)] at hnext
          have hsame : clkDistance inp (n + 1) = clkDistance inp n := by
            unfold clkDistance
            rw [htimes]
          rw [htimes, hsame, ← hlast, ← hperiod]
          exact Prod.mk.inj hnext
      | true =>
          have htimes : clkEdgeTimes inp (n + 1) = (inp n).hostTime :: clkEdgeTimes inp n := by
            rw [clkEdgeTimes, hedge]
            rfl
          rw [hedge, if_pos rfl] at hnext
          obtain ⟨hnow, hmeasured⟩ := Prod.mk.inj hnext
          refine ⟨by rw [htimes]; exact hnow, ?_⟩
          have hnonzero := edge_times_nonzero h n
          rw [hmeasured, hlast]
          unfold clkDistance at hperiod ⊢
          rw [htimes]
          cases htail : clkEdgeTimes inp n with
          | nil =>
              rw [htail] at hperiod
              exact hperiod
          | cons a older =>
              have ha : a ≠ 0 := hnonzero a (by rw [htail]; exact List.mem_cons_self)
              exact if_pos ha

end EurorackInput

/-! ## What a follower asks for -/

/-- The cycles in which one tick reads the registers. -/
structure EuroPoll where
  clk : ℕ
  rst : ℕ
  run : ℕ
  period : ℕ
  status : ℕ
  deriving DecidableEq, Repr

/-- What the tick finds there. -/
def EuroPoll.reads (inp : ℕ → EurorackIn) (p : EuroPoll) : EuroInputs where
  clkCount := (EurorackInput.core inp p.clk).clkCount
  rstCount := (EurorackInput.core inp p.rst).rstCount
  runCount := (EurorackInput.core inp p.run).runCount
  clkPeriod := (EurorackInput.core inp p.period).clkPeriod
  status := (EurorackInput.core inp p.status).status
  bpm := 0

/-- Edges that are fewer than the counter can tell apart. -/
def Countable (edge : ℕ → Bool) (m n : ℕ) : Prop :=
  m ≤ n ∧ ticks edge n < ticks edge m + 2 ^ 32

instance decidableCountable (edge : ℕ → Bool) (m n : ℕ) : Decidable (Countable edge m n) :=
  inferInstanceAs (Decidable (_ ∧ _))

/-- One poll after another. -/
structure EuroPoll.After (inp : ℕ → EurorackIn) (p q : EuroPoll) : Prop where
  clk : Countable (jackRises (clkPad inp)) p.clk q.clk
  rst : Countable (jackRises (rstPad inp)) p.rst q.rst
  run : Countable (jackChanges (runPad inp)) p.run q.run

/-- The last poll, and the last distance of two edges that was not 0. -/
abbrev JackView := EuroPoll × UInt32

section
variable (inp : ℕ → EurorackIn) (ppqn : UInt8)

/-- The distance known after a poll. -/
def knownPeriod (x : JackView) (p : EuroPoll) : UInt32 :=
  if clkDistance inp p.period ≠ 0 then clkDistance inp p.period else x.2

/-- What a poll asks the core for. -/
def asked (x : JackView) (p : EuroPoll) : List Event :=
  (if ticks (jackRises (clkPad inp)) x.1.clk < ticks (jackRises (clkPad inp)) p.clk ∧
      knownPeriod inp x p ≠ 0 then
    [.setLocalTempo (euroBpm (knownPeriod inp x p) ppqn)]
  else []) ++
  (if ticks (jackRises (rstPad inp)) x.1.rst < ticks (jackRises (rstPad inp)) p.rst then
    [.euroReset]
  else []) ++
  if ticks (jackChanges (runPad inp)) x.1.run < ticks (jackChanges (runPad inp)) p.run ∨
      jackLevel (runPad inp) p.status ≠ jackLevel (runPad inp) x.1.status then
    [.setPlay (jackLevel (runPad inp) p.status)]
  else []

/-- What happens next. -/
inductive JackTurn where
  | poll (p : EuroPoll)
  /-- Another handler of the core. -/
  | core (e : Event)

/-- The firmware, with the registers that its ticks find. -/
def jackStep (s : SyncWorld) : JackTurn → SyncWorld
  | .poll p => euroStep s (.tick (p.reads inp))
  | .core e => { s with core := step s.core e }

/-- The jacks. -/
def jackView (x : JackView) : JackTurn → JackView
  | .poll p => (p, knownPeriod inp x p)
  | .core _ => x

def jackAsked (x : JackView) : JackTurn → List Event
  | .poll p => asked inp ppqn x p
  | .core e => [e]

/-- The polls come one after the other. -/
def Polled (x : JackView) : JackTurn → Prop
  | .poll p => x.1.After inp p
  | .core _ => True

/-! ## One tick -/

/-- What the statics of `eurorack.c` hold after a poll. -/
structure Caught (x : JackView) (s : SyncWorld) : Prop where
  mode : s.euro.mode = .follower
  samePpqn : s.euro.ppqn = ppqn
  clk : s.euro.lastClkCount = (EurorackInput.core inp x.1.clk).clkCount
  rst : s.euro.lastRstCount = (EurorackInput.core inp x.1.rst).rstCount
  run : s.euro.lastRunCount = (EurorackInput.core inp x.1.run).runCount
  level : s.euro.runLevel = jackLevel (runPad inp) x.1.status
  period : s.euro.period = x.2
  bpm : s.euro.bpm = if x.2 = 0 then 0 else euroBpm x.2 ppqn

end

/-- A counter has another value where there was an edge. -/
theorem count_ne_iff {edge : ℕ → Bool} {m n : ℕ} (h : Countable edge m n) :
    UInt32.ofNat (ticks edge n) ≠ UInt32.ofNat (ticks edge m) ↔ ticks edge m < ticks edge n := by
  obtain ⟨hmn, hfew⟩ := h
  have hle := ticks_mono edge hmn
  rw [ne_eq, ← UInt32.toNat_inj, UInt32.toNat_ofNat', UInt32.toNat_ofNat']
  constructor
  · intro hne
    exact lt_of_le_of_ne hle fun heq => hne (by rw [heq])
  · intro hlt heq
    have hdvd : 2 ^ 32 ∣ ticks edge n - ticks edge m :=
      (Nat.modEq_iff_dvd' hle).mp (show ticks edge m % 2 ^ 32 = ticks edge n % 2 ^ 32 from heq.symm)
    exact Nat.not_dvd_of_pos_of_lt (Nat.sub_pos_of_lt hlt) (by omega) hdvd

section Stages

variable {i : EuroInputs} {s : SyncWorld}

/-- The clock edges, for a follower. -/
theorem euro_clock_follower (hmode : s.euro.mode = .follower) :
    (euroClock i s).euro = { s.euro with lastClkCount := i.clkCount } ∧
      (euroClock i s).core = runEvents s.core
        (if i.clkCount ≠ s.euro.lastClkCount ∧ 0 < s.euro.bpm then [.setLocalTempo s.euro.bpm]
        else []) := by
  unfold euroClock
  by_cases hcount : i.clkCount = s.euro.lastClkCount
  · rw [if_neg (not_not.mpr hcount), if_neg (fun h => h.1 hcount), hcount]
    exact ⟨rfl, rfl⟩
  · rw [if_pos hcount]
    dsimp only
    by_cases hbpm : 0 < s.euro.bpm
    · rw [if_pos (And.intro hmode hbpm), if_pos (And.intro hcount hbpm)]
      exact ⟨rfl, rfl⟩
    · rw [if_neg (fun h => hbpm h.2), if_neg (fun h => hbpm h.2)]
      exact ⟨rfl, rfl⟩

/-- The reset edges, for a follower. -/
theorem euro_reset_follower (hmode : s.euro.mode = .follower) :
    (euroReset i s).euro = { s.euro with lastRstCount := i.rstCount } ∧
      (euroReset i s).core = runEvents s.core
        (if i.rstCount ≠ s.euro.lastRstCount then [.euroReset] else []) := by
  unfold euroReset
  by_cases hcount : i.rstCount = s.euro.lastRstCount
  · rw [if_neg (not_not.mpr hcount), if_neg (not_not.mpr hcount), hcount]
    exact ⟨rfl, rfl⟩
  · rw [if_pos hcount, if_pos hcount]
    dsimp only
    rw [if_pos hmode]
    exact ⟨rfl, rfl⟩

/-- The run level, for a follower. -/
theorem euro_run_follower (hmode : s.euro.mode = .follower) {level : Bool}
    (hlevel : decide (i.status &&& 1 ≠ 0) = level) :
    (euroRun i s).euro = { s.euro with lastRunCount := i.runCount, runLevel := level } ∧
      (euroRun i s).core = runEvents s.core
        (if i.runCount ≠ s.euro.lastRunCount ∨ level ≠ s.euro.runLevel then [.setPlay level]
        else []) := by
  unfold euroRun
  dsimp only
  rw [hlevel]
  by_cases hchange : i.runCount ≠ s.euro.lastRunCount ∨ level ≠ s.euro.runLevel
  · rw [if_pos hchange, if_pos hchange, if_pos hmode]
    exact ⟨rfl, rfl⟩
  · rw [if_neg hchange, if_neg hchange]
    rw [not_or, not_not, not_not] at hchange
    rw [hchange.1, hchange.2]
    exact ⟨rfl, rfl⟩

end Stages

variable {inp : ℕ → EurorackIn} {ppqn : UInt8} {x : JackView} {s : SyncWorld}

/-- The status bit that a tick finds. -/
theorem status_level (n : ℕ) : decide ((EurorackInput.core inp n).status &&& 1 ≠ 0) =
    jackLevel (runPad inp) n := by
  unfold EurorackInput.status
  rw [(EurorackInput.core_levels n).1.2.2]
  cases jackLevel (runPad inp) n <;> rfl

/-- The distance of the last edges, as the firmware keeps it. -/
theorem Caught.measures (h : EurorackInput.Counting inp) (hcaught : Caught inp ppqn x s)
    (p : EuroPoll) :
    let e := euroMeasure ((p.reads inp).atPpqn s.euro.ppqn) s.euro
    e = { s.euro with period := e.period, bpm := e.bpm } ∧
      e.period = knownPeriod inp x p ∧
      e.bpm = if knownPeriod inp x p = 0 then 0 else euroBpm (knownPeriod inp x p) ppqn := by
  have hread : (p.reads inp).clkPeriod = clkDistance inp p.period :=
    (EurorackInput.core_meter h p.period).2
  intro e
  have he : e = if clkDistance inp p.period ≠ 0 ∧ clkDistance inp p.period ≠ x.2 then
      { s.euro with
        period := clkDistance inp p.period
        bpm := euroBpm (clkDistance inp p.period) ppqn }
      else s.euro := by
    show euroMeasure ((p.reads inp).atPpqn s.euro.ppqn) s.euro = _
    unfold euroMeasure EuroInputs.atPpqn
    dsimp only
    rw [hread, hcaught.samePpqn, hcaught.period]
    exact if_congr (and_congr_left' UInt32.pos_iff_ne_zero) rfl rfl
  unfold knownPeriod
  by_cases hzero : clkDistance inp p.period = 0
  · rw [if_neg (fun hc => hc.1 hzero)] at he
    rw [if_neg (not_not.mpr hzero), he]
    exact ⟨rfl, hcaught.period, hcaught.bpm⟩
  · rw [if_pos hzero]
    by_cases hsame : clkDistance inp p.period = x.2
    · rw [if_neg (fun hc => hc.2 hsame)] at he
      rw [hsame, he]
      exact ⟨rfl, hcaught.period, hcaught.bpm⟩
    · rw [if_pos ⟨hzero, hsame⟩] at he
      rw [if_neg hzero, he]
      exact ⟨rfl, rfl, rfl⟩

/-- The registers that a tick finds changed are those of the jacks with an edge. -/
theorem Caught.edges (h : EurorackInput.Counting inp) (hcaught : Caught inp ppqn x s)
    {p : EuroPoll} (hafter : x.1.After inp p) :
    ((p.reads inp).clkCount ≠ s.euro.lastClkCount ↔
        ticks (jackRises (clkPad inp)) x.1.clk < ticks (jackRises (clkPad inp)) p.clk) ∧
      ((p.reads inp).rstCount ≠ s.euro.lastRstCount ↔
        ticks (jackRises (rstPad inp)) x.1.rst < ticks (jackRises (rstPad inp)) p.rst) ∧
      ((p.reads inp).runCount ≠ s.euro.lastRunCount ↔
        ticks (jackChanges (runPad inp)) x.1.run < ticks (jackChanges (runPad inp)) p.run) := by
  unfold EuroPoll.reads
  rw [hcaught.clk, hcaught.rst, hcaught.run, (EurorackInput.core_counts h p.clk).1,
    (EurorackInput.core_counts h p.rst).2.1, (EurorackInput.core_counts h p.run).2.2,
    (EurorackInput.core_counts h x.1.clk).1, (EurorackInput.core_counts h x.1.rst).2.1,
    (EurorackInput.core_counts h x.1.run).2.2]
  exact ⟨count_ne_iff hafter.clk, count_ne_iff hafter.rst, count_ne_iff hafter.run⟩

/-- A tick of a follower asks for what the waveforms say. -/
theorem Caught.tick (h : EurorackInput.Counting inp) (hppqn : ppqn ≠ 0)
    (hcaught : Caught inp ppqn x s) {p : EuroPoll} (hafter : x.1.After inp p) :
    Caught inp ppqn (p, knownPeriod inp x p) (euroStep s (.tick (p.reads inp))) ∧
      (euroStep s (.tick (p.reads inp))).core = runEvents s.core (asked inp ppqn x p) := by
  obtain ⟨hmeasured, hperiod, hbpm⟩ := hcaught.measures h p
  obtain ⟨hclkEdge, hrstEdge, hrunEdge⟩ := hcaught.edges h hafter
  set i : EuroInputs := (p.reads inp).atPpqn s.euro.ppqn
  set e := euroMeasure i s.euro
  change i.clkCount ≠ s.euro.lastClkCount ↔ _ at hclkEdge
  change i.rstCount ≠ s.euro.lastRstCount ↔ _ at hrstEdge
  change i.runCount ≠ s.euro.lastRunCount ↔ _ at hrunEdge
  have hmode : e.mode = .follower := by
    rw [hmeasured]
    exact hcaught.mode
  have hknown : 0 < e.bpm ↔ knownPeriod inp x p ≠ 0 := by
    rw [hbpm]
    by_cases hzero : knownPeriod inp x p = 0
    · rw [if_pos hzero]
      exact iff_of_false (lt_irrefl 0) (not_not.mpr hzero)
    · rw [if_neg hzero]
      exact iff_of_true (euro_bpm_pos (UInt32.pos_iff_ne_zero.mpr hzero) hppqn) hzero
  -- the three sections of `euro_tick`, one after the other
  obtain ⟨hclk, hclkCore⟩ := euro_clock_follower (i := i) (s := { s with euro := e }) hmode
  set clocked := euroClock i { s with euro := e }
  obtain ⟨hrst, hrstCore⟩ := euro_reset_follower (i := i) (s := clocked) (by rw [hclk]; exact hmode)
  set snapped := euroReset i clocked
  obtain ⟨hrun, hrunCore⟩ := euro_run_follower (i := i) (s := snapped)
    (by rw [hrst, hclk]; exact hmode) (status_level p.status)
  have hkept : e.lastClkCount = s.euro.lastClkCount ∧
      clocked.euro.lastRstCount = s.euro.lastRstCount ∧
      snapped.euro.lastRunCount = s.euro.lastRunCount ∧
      snapped.euro.runLevel = jackLevel (runPad inp) x.1.status := by
    rw [hrst, hclk]
    dsimp only
    rw [hmeasured]
    exact ⟨rfl, rfl, rfl, hcaught.level⟩
  have heuro : (euroRun i snapped).euro = { s.euro with
      bpm := e.bpm
      period := e.period
      lastClkCount := i.clkCount
      lastRstCount := i.rstCount
      lastRunCount := i.runCount
      runLevel := jackLevel (runPad inp) p.status } := by
    rw [hrun, hrst, hclk]
    dsimp only
    rw [hmeasured]
  obtain ⟨hlastClk, hlastRst, hlastRun, hlevel⟩ := hkept
  show Caught inp ppqn _ (euroRun i snapped) ∧ (euroRun i snapped).core = _
  constructor
  · rw [hperiod, hbpm] at heuro
    constructor
    all_goals rw [heuro]
    · exact hcaught.mode
    · exact hcaught.samePpqn
    all_goals rfl
  · have htempo : (if i.clkCount ≠ s.euro.lastClkCount ∧ 0 < e.bpm then
        [Event.setLocalTempo e.bpm] else []) =
        if ticks (jackRises (clkPad inp)) x.1.clk < ticks (jackRises (clkPad inp)) p.clk ∧
          knownPeriod inp x p ≠ 0 then
        [.setLocalTempo (euroBpm (knownPeriod inp x p) ppqn)] else [] := by
      by_cases hzero : knownPeriod inp x p = 0
      · rw [if_neg (fun hc => hknown.mp hc.2 hzero), if_neg (fun hc => hc.2 hzero)]
      · rw [if_neg hzero] at hbpm
        exact if_congr (and_congr hclkEdge hknown) (by rw [hbpm]) rfl
    rw [hrunCore, hrstCore, hclkCore, asked, runEvents, runEvents, runEvents, runEvents,
      run_append, run_append]
    dsimp only
    rw [hlastClk, hlastRst, hlastRun, hlevel, htempo, if_congr hrstEdge rfl rfl,
      if_congr (or_congr hrunEdge Iff.rfl) rfl rfl]

/-! ## A run -/

/-- Two pulses of the clock 500 ms apart, one of the reset, and the run level goes up. -/
def jackWave (n : ℕ) : EurorackIn where
  clkIn := decide (n = 1 ∨ n = 7)
  rstIn := decide (n = 2)
  runIn := decide (4 ≤ n)
  hostTime := if n < 8 then 1 else 500001
  enable := true
  softRst := false

theorem jack_wave_counting : EurorackInput.Counting jackWave := by
  refine ⟨fun _ => rfl, fun _ => rfl, fun n _ => ?_⟩
  show (if n < 8 then (1 : UInt64) else 500001) ≠ 0
  split <;> decide

/-- A poll that reads the registers in the cycles from `n` on. -/
def pollAt (n : ℕ) : EuroPoll := ⟨n, n + 1, n + 2, n + 3, n + 4⟩

end LinkFPGA
