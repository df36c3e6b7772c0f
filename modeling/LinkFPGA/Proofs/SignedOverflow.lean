import LinkFPGA.Firmware.CheckedArithmetic
import LinkFPGA.Proofs.MedianSelection
import LinkFPGA.Proofs.Tempo

/-!
# Signed overflow in a measurement

A PONG brings three 64-bit values that nothing checks. They enter the two sample formulas, the
samples the median, and the median the difference that `on_measure_done` decides by. `PongFits`
states the ranges in which all of this is defined, in exact arithmetic on the PONG, the samples
before it, the intercept and the clock; `measurement_defined_iff` says that they are the right ones.
`ghost_time_overflows` is a first PONG that is outside of them.
-/

namespace LinkFPGA

open Selection

/-- The first sample of a PONG. -/
def exactFirst (now : Int) (ctx : PongCtx) : Int := ctx.gt.toInt - (now + ctx.ht.toInt).tdiv 2

/-- The second sample of a PONG. -/
def exactSecond (ctx : PongCtx) : Int := (ctx.gt.toInt + ctx.pgt.toInt).tdiv 2 - ctx.ht.toInt

/-- The samples after a PONG. -/
def samplesAfter (now : Int) (ctx : PongCtx) (s : MeasState) : List Int :=
  valueList s.samples ++ (if TakesFirst s then [exactFirst now ctx] else []) ++
    if TakesSecond ctx s then [exactSecond ctx] else []

/-- The sample formulas stay within the range of `int64_t`. -/
structure SamplesFit (now : Int) (ctx : PongCtx) (s : MeasState) : Prop where
  firstSum : TakesFirst s → ctx.ht.toInt < 2 ^ 63 - now
  first : TakesFirst s → FitsInt64 (exactFirst now ctx)
  secondSum : TakesSecond ctx s → FitsInt64 (ctx.gt.toInt + ctx.pgt.toInt)
  second : TakesSecond ctx s → FitsInt64 (exactSecond ctx)

/-- So does the difference of two ghost times, at a measured intercept and at the current one. -/
structure OffsetFits (now measured current : Int) : Prop where
  currentGhost : current < 2 ^ 63 - now
  newGhost : measured < 2 ^ 63 - now
  difference : FitsInt64 (measured - current)

/-- The samples after a PONG that is handled next. -/
def resultingSamples (w : World) (ctx : PongCtx) : List Int :=
  samplesAfter w.clock.now.toNat ctx w.meas

/-- A PONG is handled within the range of `int64_t`. -/
structure PongFits (w : World) (ctx : PongCtx) : Prop where
  samples : SamplesFit w.clock.now.toNat ctx w.meas
  middle : linkSampleThreshold < (resultingSamples w ctx).length →
    (resultingSamples w ctx).length % 2 = 0 → MiddleSumFits (resultingSamples w ctx)
  offset : linkSampleThreshold < (resultingSamples w ctx).length → w.meas.completion = true →
    ∀ m, IsMedian (resultingSamples w ctx) m →
      OffsetFits w.clock.advance.now.toNat m (ghostTimeGetIntercept w).toInt

/-! ## The samples -/

/-- A host time below `2 ^ 62` as a signed value. -/
theorem host_time_toInt {now : UInt64} (h : now.toNat < 2 ^ 62) :
    now.toInt64.toInt = now.toNat := by
  show now.toBitVec.toInt = now.toBitVec.toNat
  exact BitVec.toInt_eq_toNat_of_lt (by show 2 * now.toNat < 2 ^ 64; omega)

section Samples

variable {nowHost : Int64} {ctx : PongCtx}

/-- A formula of half a sum is defined when the sum is and the formula of its half. -/
theorem half_eq_some {x y z : Int64} {f : Int64 → Option Int64} :
    ((addChecked x y).bind fun sum => f (sum / 2)) = some z ↔
      FitsInt64 (x.toInt + y.toInt) ∧ f ((x + y) / 2) = some z := by
  rw [addChecked]
  split <;> simp_all

theorem first_sample_eq_some {x : Int64} (hnow : 0 ≤ nowHost.toInt) :
    Checked.firstSample nowHost ctx = some x ↔
      (ctx.ht.toInt < 2 ^ 63 - nowHost.toInt ∧ FitsInt64 (exactFirst nowHost.toInt ctx)) ∧
        x = ctx.gt - (nowHost + ctx.ht) / 2 := by
  rw [← add_fits_iff hnow, and_assoc]
  refine half_eq_some.trans (and_congr_right fun hfits => ?_)
  rw [sub_checked_eq_some, half_sum_toInt hfits, exactFirst]

theorem second_sample_eq_some {x : Int64} :
    Checked.secondSample ctx = some x ↔
      (FitsInt64 (ctx.gt.toInt + ctx.pgt.toInt) ∧ FitsInt64 (exactSecond ctx)) ∧
        x = (ctx.gt + ctx.pgt) / 2 - ctx.ht := by
  rw [and_assoc]
  refine (half_eq_some (f := (subChecked · ctx.ht))).trans (and_congr_right fun hfits => ?_)
  rw [sub_checked_eq_some, half_sum_toInt hfits, exactSecond]

/-- A sample is taken when its formula is defined, or not wanted. -/
theorem take_sample_eq_some {cond : Bool} {sample : Option Int64} {s s' : MeasState}
    {P : Prop} {x : Int64} (hsample : ∀ y, sample = some y ↔ P ∧ y = x) :
    Checked.takeSample cond sample s = some s' ↔ (cond = true → P) ∧
      s' = if cond then { s with samples := s.samples.push x } else s := by
  cases cond with
  | false => simp [Checked.takeSample, eq_comm]
  | true => simp [Checked.takeSample, hsample, eq_comm, and_assoc]

/-- Room for the second sample once the first has been taken. -/
theorem takes_second_iff (ctx : PongCtx) (x : Int64) (s : MeasState) :
    let s' := if decide (s.samples.size < maxSamples) then
      { s with samples := s.samples.push x } else s
    ctx.havePgt ∧ s'.prevHostTime ≠ 0 ∧ s'.samples.size < maxSamples ↔ TakesSecond ctx s := by
  dsimp only
  unfold TakesSecond
  by_cases hroom : s.samples.size < maxSamples
  · simp [hroom]
  · have hroom' : ¬ s.samples.size + 1 < maxSamples := by omega
    simp [hroom, hroom']

/-- The checked samples are the samples where the formulas fit. -/
theorem record_samples_eq_some {s s' : MeasState} (hnow : 0 ≤ nowHost.toInt) :
    Checked.recordSamples nowHost ctx s = some s' ↔
      SamplesFit nowHost.toInt ctx s ∧ s' = recordSamples nowHost ctx s := by
  have hroom := takes_second_iff ctx (ctx.gt - (nowHost + ctx.ht) / 2) s
  simp only [Checked.recordSamples, Option.bind_eq_bind, Option.bind_eq_some_iff,
    take_sample_eq_some fun _ => first_sample_eq_some hnow,
    take_sample_eq_some fun _ => second_sample_eq_some, Option.pure_def, Option.some.injEq]
  constructor
  · rintro ⟨_, ⟨hfirst, rfl⟩, _, ⟨hsecond, rfl⟩, rfl⟩
    have hsecond := fun h => hsecond (decide_eq_true (hroom.mpr h))
    refine ⟨⟨fun h => (hfirst (decide_eq_true h)).1, fun h => (hfirst (decide_eq_true h)).2,
      fun h => (hsecond h).1, fun h => (hsecond h).2⟩, ?_⟩
    simp only [decide_eq_true_eq]
    rfl
  · rintro ⟨h, rfl⟩
    refine ⟨_, ⟨fun hcond => ?_, rfl⟩, _, ⟨fun hcond => ?_, rfl⟩, ?_⟩
    · exact ⟨h.firstSum (of_decide_eq_true hcond), h.first (of_decide_eq_true hcond)⟩
    · have htakes := hroom.mp (of_decide_eq_true hcond)
      exact ⟨h.secondSum htakes, h.second htakes⟩
    · simp only [decide_eq_true_eq]
      rfl

/-- Where the formulas fit, the samples have their exact values. -/
theorem record_samples_values {s : MeasState} (hnow : 0 ≤ nowHost.toInt)
    (h : SamplesFit nowHost.toInt ctx s) :
    valueList (recordSamples nowHost ctx s).samples = samplesAfter nowHost.toInt ctx s := by
  have hfirst (htakes : TakesFirst s) :
      (ctx.gt - (nowHost + ctx.ht) / 2).toInt = exactFirst nowHost.toInt ctx := by
    have hsum := (add_fits_iff hnow ctx.ht).mpr (h.firstSum htakes)
    have hfits := h.first htakes
    rw [exactFirst, ← half_sum_toInt hsum] at hfits ⊢
    exact sub_toInt_of_fits hfits
  have hsecond (htakes : TakesSecond ctx s) :
      ((ctx.gt + ctx.pgt) / 2 - ctx.ht).toInt = exactSecond ctx := by
    have hfits := h.second htakes
    rw [exactSecond, ← half_sum_toInt (h.secondSum htakes)] at hfits ⊢
    exact sub_toInt_of_fits hfits
  rw [valueList, record_samples_list, newSamples, samplesAfter, List.map_append, List.map_append,
    ← List.append_assoc, ← valueList]
  congr 1
  · congr 1
    split
    · rename_i htakes
      rw [List.map_singleton, hfirst htakes]
    · rfl
  · split
    · rename_i htakes
      rw [List.map_singleton, hsecond htakes]
    · rfl

end Samples

/-! ## The median and the difference -/

/-- The difference of two ghost times at one host time is that of the intercepts. -/
theorem ghost_diff_eq_some {intercept d : Int64} {w : World} (hnow : w.clock.now.toNat < 2 ^ 62) :
    Checked.ghostDiff intercept w = some d ↔
      OffsetFits w.clock.now.toNat intercept.toInt (ghostTimeGetIntercept w).toInt ∧
        d = ghostDiff intercept w := by
  have hhost := host_time_toInt hnow
  have hsum (x : Int64) : FitsInt64 (w.clock.now.toInt64.toInt + x.toInt) ↔
      x.toInt < 2 ^ 63 - (w.clock.now.toNat : Int) := by
    rw [hhost]
    exact add_fits_iff (Int.natCast_nonneg _) x
  have hdiff {x y : Int64} (hx : FitsInt64 (w.clock.now.toInt64.toInt + x.toInt))
      (hy : FitsInt64 (w.clock.now.toInt64.toInt + y.toInt)) :
      (w.clock.now.toInt64 + x).toInt - (w.clock.now.toInt64 + y).toInt = x.toInt - y.toInt := by
    rw [add_toInt_of_fits hx, add_toInt_of_fits hy, add_sub_add_left_eq_sub]
  simp only [Checked.ghostDiff, Option.bind_eq_bind, Option.bind_eq_some_iff,
    add_checked_eq_some, sub_checked_eq_some]
  constructor
  · rintro ⟨_, ⟨hcurrent, rfl⟩, _, ⟨hnew, rfl⟩, hfits, rfl⟩
    rw [hdiff hnew hcurrent] at hfits
    exact ⟨⟨(hsum _).mp hcurrent, (hsum _).mp hnew, hfits⟩, rfl⟩
  · rintro ⟨⟨hcurrent, hnew, hfits⟩, rfl⟩
    rw [← hsum] at hcurrent hnew
    refine ⟨_, ⟨hcurrent, rfl⟩, _, ⟨hnew, rfl⟩, ?_, rfl⟩
    rwa [hdiff hnew hcurrent]

theorem on_measure_done_eq_some {intercept : Int64} {w w' : World}
    (hnow : w.clock.now.toNat < 2 ^ 62) :
    Checked.onMeasureDone true intercept w = some w' ↔
      OffsetFits w.clock.now.toNat intercept.toInt (ghostTimeGetIntercept w).toInt ∧
        w' = onMeasureDone true intercept w := by
  simp only [Checked.onMeasureDone, Bool.not_true, Bool.false_eq_true, if_false,
    Option.map_eq_some_iff, ghost_diff_eq_some hnow]
  constructor
  · rintro ⟨_, ⟨hfits, -⟩, rfl⟩
    exact ⟨hfits, rfl⟩
  · rintro ⟨hfits, rfl⟩
    exact ⟨_, ⟨hfits, rfl⟩, rfl⟩

/-- The call of `S.completion` is defined when there is none, or the difference is. -/
theorem finish_eq_some {c : Clock} {s : MeasState} {intercept : Int64} {w w' : World}
    (hnow : c.now.toNat < 2 ^ 62) :
    Checked.applyMeas (finish c s true intercept) w = some w' ↔
      (s.completion = true →
        OffsetFits c.now.toNat intercept.toInt (ghostTimeGetIntercept w).toInt) ∧
        w' = applyMeas (finish c s true intercept) w := by
  have hcall : (finish c s true intercept).call =
      if s.completion then some (true, intercept) else none := rfl
  unfold Checked.applyMeas applyMeas
  by_cases hcompletion : s.completion = true
  · rw [hcall, if_pos hcompletion]
    refine (on_measure_done_eq_some hnow).trans ?_
    rw [forall_prop_of_true hcompletion]
    rfl
  · rw [hcall, if_neg hcompletion]
    simp [hcompletion, eq_comm]

/-- The end of a measurement is defined when its median and the difference are. -/
theorem conclude_eq_some {c : Clock} {s : MeasState} {w w' : World} (hnow : c.now.toNat < 2 ^ 62)
    (hne : s.samples.size ≠ 0) :
    ((Checked.medianI64 s.samples.size s.samples).bind fun r =>
        Checked.applyMeas (finish c { s with samples := r.1 } true r.2) w) = some w' ↔
      ((s.samples.size % 2 = 0 → MiddleSumFits (valueList s.samples)) ∧
        (s.completion = true → OffsetFits c.now.toNat (medianI64 s.samples).2.toInt
          (ghostTimeGetIntercept w).toInt)) ∧
        w' = applyMeas (finish c { s with samples := (medianI64 s.samples).1 } true
          (medianI64 s.samples).2) w := by
  simp only [Option.bind_eq_some_iff, checked_median_eq_some le_rfl, finish_eq_some hnow]
  constructor
  · rintro ⟨_, ⟨hmiddle, rfl⟩, hoffset, rfl⟩
    exact ⟨⟨hmiddle hne, hoffset⟩, rfl⟩
  · rintro ⟨⟨hmiddle, hoffset⟩, rfl⟩
    exact ⟨_, ⟨fun _ => hmiddle, rfl⟩, hoffset, rfl⟩

/-! ## A PONG -/

variable {w : World} {buf : List UInt8} {srcAddr : UInt32} {srcPort : UInt16} {ctx : PongCtx}

/-- For every PONG that `measurement_handle_rx` accepts, in any state and with host times below
`2 ^ 62`: no sample formula, no mean of two middle samples and no difference of ghost times
overflows, if and only if the PONG is within the ranges of `PongFits`. -/
theorem measurement_defined_iff
    (hparse : parsePong w.meas buf srcAddr srcPort = some ctx)
    (hsess : ctx.sess = w.meas.targetSession) (hnow : w.clock.now.toNat < 2 ^ 62)
    (hnow' : w.clock.advance.now.toNat < 2 ^ 62) :
    Checked.measurementRx buf srcAddr srcPort w =
        some (applyMeas (measurementHandleRx w.clock w.meas buf srcAddr srcPort) w) ↔
      PongFits w ctx := by
  have hhost := host_time_toInt hnow
  have hpos : 0 ≤ w.clock.now.toInt64.toInt := by omega
  have hsamples (s : MeasState) : Checked.recordSamples w.clock.now.toInt64 ctx w.meas = some s ↔
      SamplesFit w.clock.now.toNat ctx w.meas ∧
        s = recordSamples w.clock.now.toInt64 ctx w.meas := by
    rw [← hhost]
    exact record_samples_eq_some hpos
  rw [measurement_handle_rx_accepted hparse hsess]
  simp only [Checked.measurementRx, Checked.measurementHandleRx, hparse, hsess, ne_eq,
    not_true_eq_false, if_false, Option.bind_eq_bind, Option.bind_assoc]
  by_cases hfits : SamplesFit w.clock.now.toNat ctx w.meas
  · have hvalues := record_samples_values hpos (hhost ▸ hfits)
    have hcompletion := record_samples_completion w.clock.now.toInt64 ctx w.meas
    rw [(hsamples _).mpr ⟨hfits, rfl⟩, Option.bind_some]
    rw [hhost] at hvalues
    generalize recordSamples w.clock.now.toInt64 ctx w.meas = s at hvalues hcompletion ⊢
    have hlength : s.samples.size = (resultingSamples w ctx).length := by
      rw [resultingSamples, ← hvalues, value_list_length]
    by_cases hfull : linkSampleThreshold < s.samples.size
    · have hne : s.samples.size ≠ 0 := by omega
      rw [if_pos hfull, if_pos hfull, Option.bind_assoc]
      refine (conclude_eq_some hnow' hne).trans ?_
      rw [hcompletion, hvalues, hlength]
      rw [hlength] at hfull
      constructor
      · rintro ⟨⟨hmiddle, hoffset⟩, -⟩
        refine ⟨hfits, fun _ => hmiddle, fun _ hcall m hm => ?_⟩
        have hmedian := is_median hne (by rw [hvalues, hlength]; exact hmiddle)
        rw [hvalues] at hmedian
        rw [hm.unique hmedian]
        exact hoffset hcall
      · intro h
        have hmedian := is_median hne (by rw [hvalues, hlength]; exact h.middle hfull)
        rw [hvalues] at hmedian
        exact ⟨⟨h.middle hfull, fun hcall => h.offset hfull hcall _ hmedian⟩, rfl⟩
    · rw [if_neg hfull, if_neg hfull]
      rw [hlength] at hfull
      exact iff_of_true rfl ⟨hfits, fun h => absurd h hfull, fun h => absurd h hfull⟩
  · refine iff_of_false (fun h => ?_) fun h => hfits h.samples
    obtain ⟨s, hs, -⟩ := Option.bind_eq_some_iff.mp h
    exact hfits ((hsamples s).mp hs).1

/-- The node under test has heard the bare ALIVE and measures the first node. -/
def measuring : World := runEvents nodeSelf [aliveBare]

/-- Its first PONG, with a ghost time five seconds ahead, is handled without an overflow. -/
theorem measurement_defined_iff_ahead :
    Checked.measurementRx pongAhead nodeA.localIpv4 linkDiscoveryPort measuring =
      some (applyMeas (measurementHandleRx measuring.clock measuring.meas pongAhead
        nodeA.localIpv4 linkDiscoveryPort) measuring) := by
  let ctx : PongCtx := ⟨1010, 5000000, 5000000, true, true, true, nodeA.linkSelfSession, true⟩
  have hsamples : SamplesFit measuring.clock.now.toNat ctx measuring.meas := by
    constructor <;> decide +kernel
  have hfew : ¬ linkSampleThreshold < (resultingSamples measuring ctx).length := by decide +kernel
  have hfits : PongFits measuring ctx :=
    ⟨hsamples, fun hfull => absurd hfull hfew, fun hfull => absurd hfull hfew⟩
  exact (measurement_defined_iff (by decide +kernel) (by decide +kernel) (by decide +kernel)
    (by decide +kernel)).mpr hfits

/-- The first node's PONG, with the least `int64_t` as its ghost time. -/
def pongFarBehind : List UInt8 :=
  (encodePong nodeA.linkSelfSession 0x8000000000000000 (encodePing 1010 5000000 true)).getD []

/-- The first PONG of the measurement, at a host time of about a millisecond, has samples below the
range of `int64_t`. -/
theorem ghost_time_overflows :
    ¬ ∀ (w : World) (buf : List UInt8) (srcAddr : UInt32) (srcPort : UInt16) (ctx : PongCtx),
      parsePong w.meas buf srcAddr srcPort = some ctx → ctx.sess = w.meas.targetSession →
      w.clock.now.toNat < 2 ^ 62 → w.clock.advance.now.toNat < 2 ^ 62 →
      Checked.measurementRx buf srcAddr srcPort w =
        some (applyMeas (measurementHandleRx w.clock w.meas buf srcAddr srcPort) w) := by
  intro h
  have hdefined := h measuring pongFarBehind nodeA.localIpv4 linkDiscoveryPort
    ⟨1010, -2 ^ 63, 5000000, true, true, true, nodeA.linkSelfSession, true⟩ (by decide +kernel)
    (by decide +kernel) (by decide +kernel) (by decide +kernel)
  have hundefined : (Checked.measurementRx pongFarBehind nodeA.localIpv4 linkDiscoveryPort
      measuring).isNone = true := by
    decide +kernel
  rw [hdefined] at hundefined
  cases hundefined

end LinkFPGA
