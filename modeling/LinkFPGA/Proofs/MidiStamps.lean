import LinkFPGA.Gateware.Midi

/-!
# The timestamps of received real-time bytes

`rx_ts` is written by the same strobe that queues an event and moves the period meter, so both read
the stamp of the byte before (`rx_ts_eq`). `stamps_right_iff` says when that does not show: an
event is stamped right when the byte before it was strobed at the same host time, and the period
meter is right when two clock bytes follow the bytes before them by the same time.
-/

namespace LinkFPGA

open Clocked

namespace RtMeter

/-! ## What was received -/

/-- The host time at the strobe of the latest byte before cycle `n`, or what `rx_ts` held at the
start. -/
def stampBefore (ts : UInt64) (inp : ℕ → RtMeterIn) : ℕ → UInt64
  | 0 => ts
  | n + 1 => if (inp n).strobed.isSome then (inp n).hostTime else stampBefore ts inp n

/-- The host times at the strobes of the clock bytes before cycle `n`, the latest first. -/
def clkTimes (inp : ℕ → RtMeterIn) : ℕ → List UInt64
  | 0 => []
  | n + 1 =>
      if (inp n).strobed = some rtClock then (inp n).hostTime :: clkTimes inp n
      else clkTimes inp n

/-- For each clock byte before cycle `n` the host time at the strobe of the byte before it, the
latest first. -/
def clkStamps (ts : UInt64) (inp : ℕ → RtMeterIn) : ℕ → List UInt64
  | 0 => []
  | n + 1 =>
      if (inp n).strobed = some rtClock then stampBefore ts inp n :: clkStamps ts inp n
      else clkStamps ts inp n

/-- The host time in cycle `n`, give or take one cycle. -/
def Near (inp : ℕ → RtMeterIn) (n : ℕ) (ts : UInt64) : Prop :=
  ∃ m, n ≤ m + 1 ∧ m ≤ n + 1 ∧ ts = (inp m).hostTime

/-- A soft reset or power-on has just been. -/
structure Cleared (s : RtMeter) : Prop where
  free : s.rtQValid = false
  noClk : s.lastClkTs = 0
  noPeriod : s.curPeriod = 0

section

variable (s : RtMeter) (inp : ℕ → RtMeterIn)

/-- The real-time byte strobed in cycle `n` takes the event slot. -/
structure Queues (n : ℕ) (b : UInt8) : Prop where
  strobed : (inp n).strobed = some b
  rt : isRt b = true
  free : (trace clk s inp n).rtQValid = false
  kept : (inp n).rtEvAck = false

/-- Until it is acknowledged, an event is in the slot with its byte and the host time of its
strobe. -/
def EventsRight : Prop :=
  ∀ m b, Queues s inp m b → ∀ n, m < n → (∀ i, m < i → i < n → (inp i).rtEvAck = false) →
    (trace clk s inp n).rtQValid = true ∧ (trace clk s inp n).rtQByte = b ∧
      Near inp m (trace clk s inp n).rtQTs

/-- From the second clock byte on, the period is the time between the latest two. -/
def PeriodRight (n : ℕ) : Prop :=
  match clkTimes inp n with
  | b :: a :: _ => (trace clk s inp n).curPeriod = (b - a).toUInt32
  | _ => True

/-- The latest clock byte follows the byte before it by the time the clock byte before follows
its own; where that one was stamped zero, the period is the one before. -/
def PeriodMeets (n : ℕ) : Prop :=
  match clkTimes inp n, clkStamps s.rxTs inp n with
  | b :: a :: older, d :: c :: _ =>
      (b - a).toUInt32 =
        if c ≠ 0 then (d - c).toUInt32
        else match older with
          | z :: _ => (a - z).toUInt32
          | [] => 0
  | _, _ => True

end

/-! ## One clock edge -/

section Step

variable {s : RtMeter} {i : RtMeterIn} {b : UInt8}

@[simp] theorem is_rt_clock : isRt rtClock = true := rfl

theorem clk_rx_ts (s : RtMeter) (i : RtMeterIn) :
    (s.clk i).rxTs = if i.strobed.isSome then i.hostTime else s.rxTs := by
  have hparts (b : UInt8) (t : RtMeter) : (s.meter b (s.queue b t)).rxTs = t.rxTs := by
    unfold meter queue
    split <;> split <;> rfl
  unfold clk
  cases i.rtEvAck <;> cases i.softRst <;> cases i.strobed with
  | none => rfl
  | some b => first | rfl | (cases hrt : isRt b <;> simp [hrt, hparts])

/-- A real-time byte that finds the slot free is queued with the stamp from before its strobe. -/
theorem clk_queues (hrst : i.softRst = false) (hstrobe : i.strobed = some b) (hrt : isRt b = true)
    (hfree : s.rtQValid = false) (hack : i.rtEvAck = false) :
    (s.clk i).rtQValid = true ∧ (s.clk i).rtQByte = b ∧ (s.clk i).rtQTs = s.rxTs := by
  unfold clk meter queue
  by_cases hclk : b = rtClock <;> simp [hrst, hstrobe, hrt, hfree, hack, hclk]

/-- An event stays in the slot until it is acknowledged. -/
theorem clk_holds (hrst : i.softRst = false) (hvalid : s.rtQValid = true)
    (hack : i.rtEvAck = false) :
    (s.clk i).rtQValid = true ∧ (s.clk i).rtQByte = s.rtQByte ∧ (s.clk i).rtQTs = s.rtQTs := by
  unfold clk meter queue
  cases hstrobe : i.strobed with
  | none => simp [hrst, hvalid, hack]
  | some b =>
      cases hrt : isRt b with
      | false => simp [hrst, hvalid, hack, hrt]
      | true => by_cases hclk : b = rtClock <;> simp [hrst, hvalid, hack, hrt, hclk]

/-- A clock byte moves the period meter on by the stamp from before its strobe. -/
theorem clk_meters (hrst : i.softRst = false) (hstrobe : i.strobed = some rtClock) :
    (s.clk i).lastClkTs = s.rxTs ∧ (s.clk i).curPeriod =
      if s.lastClkTs ≠ 0 then (s.rxTs - s.lastClkTs).toUInt32 else s.curPeriod := by
  unfold clk meter queue
  cases hvalid : s.rtQValid <;> cases hack : i.rtEvAck <;> simp [hrst, hstrobe]

/-- Nothing else moves it. -/
theorem clk_keeps_meter (hrst : i.softRst = false) (hother : i.strobed ≠ some rtClock) :
    (s.clk i).lastClkTs = s.lastClkTs ∧ (s.clk i).curPeriod = s.curPeriod := by
  unfold clk meter queue
  cases hstrobe : i.strobed with
  | none => cases hack : i.rtEvAck <;> simp [hrst]
  | some b =>
      have hclk : b ≠ rtClock := fun heq ↦ hother (by rw [hstrobe, heq])
      cases hvalid : s.rtQValid <;> cases hack : i.rtEvAck <;> cases hrt : isRt b <;>
        simp [hrst, hclk, hrt]

end Step

/-! ## Runs -/

section Runs

variable {s : RtMeter} {inp : ℕ → RtMeterIn}

/-- `rx_ts` is the stamp of the latest byte. -/
theorem rx_ts_eq (s : RtMeter) (inp : ℕ → RtMeterIn) (n : ℕ) :
    (trace clk s inp n).rxTs = stampBefore s.rxTs inp n := by
  induction n with
  | zero => rfl
  | succ n ih => rw [trace_succ, clk_rx_ts, ih, stampBefore]

variable (hrst : ∀ n, (inp n).softRst = false)
include hrst

/-- What an event in the slot carries. -/
theorem slot_eq {m : ℕ} {b : UInt8} (hq : Queues s inp m b) {n : ℕ} (hmn : m < n)
    (hnoAck : ∀ i, m < i → i < n → (inp i).rtEvAck = false) :
    (trace clk s inp n).rtQValid = true ∧ (trace clk s inp n).rtQByte = b ∧
      (trace clk s inp n).rtQTs = stampBefore s.rxTs inp m := by
  induction n, Nat.succ_le_of_lt hmn using Nat.le_induction with
  | base =>
      rw [← rx_ts_eq]
      exact clk_queues (hrst m) hq.strobed hq.rt hq.free hq.kept
  | succ n hn ih =>
      obtain ⟨hvalid, hbyte, hts⟩ := ih hn fun i hi hin ↦ hnoAck i hi (by omega)
      obtain ⟨hvalid', hbyte', hts'⟩ := clk_holds (hrst n) hvalid (hnoAck n hn (by omega))
      exact ⟨hvalid', hbyte'.trans hbyte, hts'.trans hts⟩

/-- An event carries the host time of its own strobe exactly when that is the one of the byte
before it. -/
theorem events_right_iff :
    EventsRight s inp ↔ ∀ m b, Queues s inp m b → Near inp m (stampBefore s.rxTs inp m) := by
  constructor
  · intro hright m b hq
    have hnone : ∀ i, m < i → i < m + 1 → (inp i).rtEvAck = false := fun i hi hlt ↦ by omega
    have hnear := (hright m b hq (m + 1) (Nat.lt_succ_self m) hnone).2.2
    rwa [(slot_eq hrst hq (Nat.lt_succ_self m) hnone).2.2] at hnear
  · intro hmeets m b hq n hmn hnoAck
    obtain ⟨hvalid, hbyte, hts⟩ := slot_eq hrst hq hmn hnoAck
    exact ⟨hvalid, hbyte, hts ▸ hmeets m b hq⟩

/-- `last_clk_ts` is the stamp that the latest clock byte found. -/
theorem last_clk_ts_eq (h : s.Cleared) (n : ℕ) :
    (trace clk s inp n).lastClkTs = (clkStamps s.rxTs inp n).headD 0 := by
  induction n with
  | zero => exact h.noClk
  | succ n ih =>
      rw [trace_succ, clkStamps]
      by_cases hclk : (inp n).strobed = some rtClock
      · rw [if_pos hclk, (clk_meters (hrst n) hclk).1, rx_ts_eq]
        rfl
      · rw [if_neg hclk, (clk_keeps_meter (hrst n) hclk).1, ih]

omit hrst in
/-- There are as many stamps as clock bytes. -/
theorem clk_stamps_length (ts : UInt64) (inp : ℕ → RtMeterIn) (n : ℕ) :
    (clkStamps ts inp n).length = (clkTimes inp n).length := by
  induction n with
  | zero => rfl
  | succ n ih =>
      rw [clkStamps, clkTimes]
      split
      · rw [List.length_cons, List.length_cons, ih]
      · exact ih

/-- Up to the second clock byte there is no period. -/
theorem no_period (h : s.Cleared) {n : ℕ} (hfew : (clkTimes inp n).length ≤ 1) :
    (trace clk s inp n).curPeriod = 0 := by
  induction n with
  | zero => exact h.noPeriod
  | succ n ih =>
      rw [clkTimes] at hfew
      rw [trace_succ]
      by_cases hclk : (inp n).strobed = some rtClock
      · rw [if_pos hclk, List.length_cons] at hfew
        have hnone : clkTimes inp n = [] := List.eq_nil_of_length_eq_zero (by omega)
        have hnoStamp : clkStamps s.rxTs inp n = [] :=
          List.eq_nil_of_length_eq_zero (by rw [clk_stamps_length, hnone]; rfl)
        rw [(clk_meters (hrst n) hclk).2, last_clk_ts_eq hrst h, hnoStamp,
          ih (by rw [hnone]; exact Nat.zero_le 1)]
        rfl
      · rw [if_neg hclk] at hfew
        rw [(clk_keeps_meter (hrst n) hclk).2, ih hfew]

omit hrst in
/-- Between clock bytes neither side changes. -/
theorem meets_of_no_clk {n : ℕ} (hother : (inp n).strobed ≠ some rtClock) :
    PeriodMeets s inp (n + 1) ↔ PeriodMeets s inp n := by
  unfold PeriodMeets
  rw [clkTimes, clkStamps, if_neg hother, if_neg hother]

theorem right_of_no_clk {n : ℕ} (hother : (inp n).strobed ≠ some rtClock) :
    PeriodRight s inp (n + 1) ↔ PeriodRight s inp n := by
  unfold PeriodRight
  rw [clkTimes, if_neg hother, trace_succ, (clk_keeps_meter (hrst n) hother).2]

/-- A clock byte after which the period is right, if it was before. -/
theorem right_of_clk (h : s.Cleared) {n : ℕ} (hclk : (inp n).strobed = some rtClock)
    (hbefore : PeriodRight s inp n) :
    PeriodRight s inp (n + 1) ↔ PeriodMeets s inp (n + 1) := by
  have hperiod := (clk_meters (s := trace clk s inp n) (hrst n) hclk).2
  rw [last_clk_ts_eq hrst h, rx_ts_eq] at hperiod
  have hlen := clk_stamps_length s.rxTs inp n
  unfold PeriodRight at hbefore ⊢
  unfold PeriodMeets
  rw [clkTimes, clkStamps, if_pos hclk, if_pos hclk, trace_succ]
  rcases htimes : clkTimes inp n with _ | ⟨a, older⟩
  · exact Iff.rfl
  · rw [htimes] at hbefore hlen
    obtain ⟨c, stamps, hstamps⟩ := List.exists_cons_of_length_eq_add_one hlen
    rw [hstamps, List.headD_cons] at hperiod
    rw [hstamps]
    dsimp only
    rw [hperiod]
    by_cases hzero : c ≠ 0
    · rw [if_pos hzero, if_pos hzero]
      exact eq_comm
    · rw [if_neg hzero, if_neg hzero]
      cases older with
      | nil =>
          rw [no_period hrst h (by rw [htimes]; exact le_rfl)]
          exact eq_comm
      | cons z older =>
          dsimp only at hbefore ⊢
          rw [hbefore]
          exact eq_comm

/-- The period meter is right in every cycle exactly when every clock byte meets the condition. -/
theorem periods_right_iff (h : s.Cleared) :
    (∀ n, PeriodRight s inp n) ↔ ∀ n, PeriodMeets s inp n := by
  constructor
  · intro hright n
    induction n with
    | zero => trivial
    | succ n ih =>
        by_cases hclk : (inp n).strobed = some rtClock
        · exact (right_of_clk hrst h hclk (hright n)).mp (hright (n + 1))
        · exact (meets_of_no_clk hclk).mpr ih
  · intro hmeets n
    induction n with
    | zero => trivial
    | succ n ih =>
        by_cases hclk : (inp n).strobed = some rtClock
        · exact (right_of_clk hrst h hclk ih).mpr (hmeets (n + 1))
        · exact (right_of_no_clk hrst hclk).mpr ih

/-- With the soft reset low, events and periods are right in a run exactly when every event finds
the stamp of a byte strobed at its own host time, and any two clock bytes follow the bytes before
them by the same time. -/
theorem stamps_right_iff (h : s.Cleared) :
    (EventsRight s inp ∧ ∀ n, PeriodRight s inp n) ↔
      (∀ m b, Queues s inp m b → Near inp m (stampBefore s.rxTs inp m)) ∧
        ∀ n, PeriodMeets s inp n :=
  and_congr (events_right_iff hrst) (periods_right_iff hrst h)

end Runs

/-- A start byte in the first cycle of a 75 MHz system, then a data byte and three clock bytes, each
320 us after the one before. -/
def steadyClock (n : ℕ) : RtMeterIn :=
  let byte := if n = 0 then some rtStart else if n = 24000 then some 0x40
    else if n = 48000 ∨ n = 72000 ∨ n = 96000 then some rtClock else none
  ⟨byte, .ofNat (n / 75), false, false⟩

theorem steady_clock_silent {n : ℕ}
    (h : ¬ (n = 0 ∨ n = 24000 ∨ n = 48000 ∨ n = 72000 ∨ n = 96000)) :
    (steadyClock n).strobed = none := by
  simp only [steadyClock]
  rw [if_neg (by omega), if_neg (by omega), if_neg (by omega)]

theorem steady_clock_stamp (n : ℕ) : stampBefore 0 steadyClock n =
    if n ≤ 24000 then 0 else if n ≤ 48000 then 320 else if n ≤ 72000 then 640
    else if n ≤ 96000 then 960 else 1280 := by
  induction n with
  | zero => rfl
  | succ n ih =>
      rw [stampBefore, ih]
      by_cases hbyte : n = 0 ∨ n = 24000 ∨ n = 48000 ∨ n = 72000 ∨ n = 96000
      · rcases hbyte with rfl | rfl | rfl | rfl | rfl <;> rfl
      · rw [steady_clock_silent hbyte, if_neg (by decide)]
        split_ifs <;> first | rfl | omega

theorem steady_clock_times (n : ℕ) : clkTimes steadyClock n =
      (if n ≤ 48000 then [] else if n ≤ 72000 then [640] else if n ≤ 96000 then [960, 640]
        else [1280, 960, 640]) ∧
    clkStamps 0 steadyClock n =
      (if n ≤ 48000 then [] else if n ≤ 72000 then [320] else if n ≤ 96000 then [640, 320]
        else [960, 640, 320]) := by
  induction n with
  | zero => exact ⟨rfl, rfl⟩
  | succ n ih =>
      rw [clkTimes, clkStamps, ih.1, ih.2, steady_clock_stamp]
      by_cases hbyte : n = 0 ∨ n = 24000 ∨ n = 48000 ∨ n = 72000 ∨ n = 96000
      · rcases hbyte with rfl | rfl | rfl | rfl | rfl <;> exact ⟨rfl, rfl⟩
      · simp only [steady_clock_silent hbyte, reduceCtorEq, if_false]
        constructor <;> split_ifs <;> first | rfl | omega

/-- The start byte finds the slot free and is queued; the period is 320 us after the last byte. -/
theorem stamps_right_iff_steady_clock :
    EventsRight reset steadyClock ∧ (∀ n, PeriodRight reset steadyClock n) ∧
      ∀ n, 96000 < n → (trace clk reset steadyClock n).curPeriod = 320 := by
  have hstart : Queues reset steadyClock 0 rtStart := ⟨rfl, rfl, rfl, rfl⟩
  have hmeets (n : ℕ) : PeriodMeets reset steadyClock n := by
    have hstamps := (steady_clock_times n).2
    rw [PeriodMeets, (steady_clock_times n).1]
    rw [show reset.rxTs = 0 from rfl, hstamps]
    split_ifs <;> trivial
  have hright := (stamps_right_iff (fun _ ↦ rfl) ⟨rfl, rfl, rfl⟩).mpr ⟨fun m b hq ↦ ?_, hmeets⟩
  · refine ⟨hright.1, hright.2, fun n hn ↦ ?_⟩
    have hperiod := hright.2 n
    rw [PeriodRight, (steady_clock_times n).1, if_neg (by omega), if_neg (by omega),
      if_neg (by omega)] at hperiod
    exact hperiod
  · -- the slot is never free again
    cases m with
    | zero => exact ⟨0, by omega, by omega, rfl⟩
    | succ m =>
        have hslot := slot_eq (fun _ ↦ rfl) hstart (Nat.succ_pos m) fun _ _ _ ↦ rfl
        rw [hq.free] at hslot
        exact absurd hslot.1 (by decide)

/-- A clock byte, the first byte received, strobed at the host time 1000000 of a 75 MHz system. -/
def firstClock (n : ℕ) : RtMeterIn :=
  ⟨if n = 0 then some rtClock else none, .ofNat (1000000 + n / 75), false, false⟩

theorem first_clock_stamped_zero :
    ¬ (EventsRight reset firstClock ∧ ∀ n, PeriodRight reset firstClock n) := by
  rintro ⟨hright, -⟩
  obtain ⟨-, -, m, -, hm, hts⟩ :=
    hright 0 rtClock ⟨rfl, rfl, rfl, rfl⟩ 1 Nat.one_pos fun i hi hlt ↦ by omega
  have hhost : (firstClock m).hostTime = 1000000 := by
    show UInt64.ofNat (1000000 + m / 75) = 1000000
    rw [Nat.div_eq_of_lt (by omega)]
    rfl
  rw [hhost] at hts
  exact absurd hts (by decide)

end RtMeter

end LinkFPGA
