import LinkFPGA.Firmware.CheckedMedian
import LinkFPGA.Firmware.Main

/-!
# The signed arithmetic of `measurement.c`, `session.c` and `link.c`, checked

The functions that compute with 64-bit values from the network once more, as runs that stop
(`none`) where C leaves the arithmetic undefined: a signed sum or difference that overflows, a
`double` whose integral part is not an `int64_t`, a division by 0.
-/

namespace LinkFPGA.Checked

/-! ## Measurements -/

/-- `S.samples[S.n_samples++] = sample` under a condition. -/
def takeSample (cond : Bool) (sample : Option Int64) (s : MeasState) : Option MeasState :=
  if cond then sample.map fun x => { s with samples := s.samples.push x } else some s

/-- `ctx.gt - (now_host + ctx.ht) / 2`. -/
def firstSample (nowHost : Int64) (ctx : PongCtx) : Option Int64 := do
  let sum ← addChecked nowHost ctx.ht
  subChecked ctx.gt (sum / 2)

/-- `(ctx.gt + ctx.pgt) / 2 - ctx.ht`. -/
def secondSample (ctx : PongCtx) : Option Int64 := do
  let sum ← addChecked ctx.gt ctx.pgt
  subChecked (sum / 2) ctx.ht

/-- The two sample formulas of `measurement_handle_rx`, and the update of `prev_ghost_time`. -/
def recordSamples (nowHost : Int64) (ctx : PongCtx) (s : MeasState) : Option MeasState := do
  let s ← takeSample (decide (s.samples.size < maxSamples)) (firstSample nowHost ctx) s
  let s ← takeSample
    (decide (ctx.havePgt ∧ s.prevHostTime ≠ 0 ∧ s.samples.size < maxSamples)) (secondSample ctx) s
  return { s with prevGhostTime := ctx.gt }

/-- `measurement_handle_rx`. -/
def measurementHandleRx (c : Clock) (s : MeasState) (buf : List UInt8) (srcAddr : UInt32)
    (srcPort : UInt16) : Option MeasResult :=
  match parsePong s buf srcAddr srcPort with
  | none => some (.idle c s)
  | some ctx =>
      if ctx.sess ≠ s.targetSession then some (finish c s false 0)
      else do
        let nowHost := c.now.toInt64
        let c := c.advance
        let s ← recordSamples nowHost ctx s
        if linkSampleThreshold < s.samples.size then
          let r ← medianI64 s.samples.size s.samples
          return finish c { s with samples := r.1 } true r.2
        else return sendPing c s

/-- The ghost-time difference `on_measure_done` decides by, on the next clock reading. -/
def ghostDiff (intercept : Int64) (w : World) : Option Int64 := do
  let curGhost ← addChecked w.clock.now.toInt64 (ghostTimeGetIntercept w)
  let newGhost ← addChecked w.clock.now.toInt64 intercept
  subChecked newGhost curGhost

/-- `on_measure_done(success, intercept)`: after a success it computes the difference first. -/
def onMeasureDone (success : Bool) (intercept : Int64) (w : World) : Option World :=
  if !success then some w
  else (ghostDiff intercept w).map fun _ => LinkFPGA.onMeasureDone success intercept w

/-- Carry out what a handler of `measurement.c` did, and the call of `on_measure_done`. -/
def applyMeas (r : MeasResult) (w : World) : Option World :=
  let w := { w with
    clock := r.clock
    meas := r.state
    sent := w.sent ++ r.sent }
  match r.call with
  | none => some w
  | some (success, intercept) => onMeasureDone success intercept w

/-- A datagram handed to `measurement_handle_rx`. -/
def measurementRx (buf : List UInt8) (srcAddr : UInt32) (srcPort : UInt16) (w : World) :
    Option World := do
  let r ← measurementHandleRx w.clock w.meas buf srcAddr srcPort
  applyMeas r w

/-! ## Local edits -/

/-- `(int64_t)` of a `double`, read as a rational. -/
def truncToInt64 (q : Rat) : Option Int64 :=
  if FitsInt64 (q.num.tdiv q.den) then some (LinkFPGA.truncToInt64 q) else none

/-- `beat_origin + (int64_t)(((double)(now_g - time_origin) * 1e6) / (double)tempo)`. -/
def beatsAt (tl : Timeline) (nowG : Int64) : Option Int64 := do
  let elapsed ← subChecked nowG tl.timeOriginUsGhost
  if tl.tempoUsPerBeat = 0 then none
  else
    let beats ← truncToInt64 ((elapsed.toInt : Rat) * 1000000 / tl.tempoUsPerBeat.toInt)
    addChecked tl.beatOriginMicrobeats beats

/-- The timeline `link_set_local_tempo` leaves. -/
def retimed (bpm : Rat) (nowG : Int64) (tl : Timeline) : Option Timeline := do
  let usPerBeat ← truncToInt64 (60000000 / bpm + 1 / 2)
  let curBeats ← beatsAt tl nowG
  return ⟨usPerBeat, curBeats, nowG⟩

end LinkFPGA.Checked
